import Mathlib.Data.UInt
import Mathlib.Logic.Relation

/-!
# Which image boots

The boot loader has two images to choose from, and a flag byte for each of them:
`boot_image_find` chooses by the flags, `main` of `mbl.c` validates the image and records the
verdict in its flags, and `tkl_ota_end_notify` marks the image that has been downloaded as the
newer one, in three writes. Power may be lost between any two writes, and a download may leave
anything in the image that is not running.

What makes this safe is that some image is always both intact and selectable
(`Safe`): while it runs, the running image is, and the image that is chosen instead of
it after an update either validates, and is the safe one from then on, or is marked as failed
and not chosen again.

So an update that has been finished is taken or rolled back: the boots come to the new image if it
validates, and else to the one that ran before (`Settles`).

The flags are written by the ROM, which is a parameter here, as is the verdict on a content.
-/

namespace Gd32.Boot

open Function Option

/-! ### Flags -/

/-- `IMAGE_0` and `IMAGE_1`. -/
inductive Image where
  | image0
  | image1
  deriving DecidableEq, Repr

/-- `!idx`. -/
def Image.other : Image → Image
  | image0 => image1
  | image1 => image0

def imgFlagNewerMask : UInt8 := 0x01

def imgFlagVerifyMask : UInt8 := 0x06

def imgFlagIaMask : UInt8 := 0x18

def imgFlagOlder : UInt8 := 0x0

def imgFlagNewer : UInt8 := 0x1

def imgFlagVerifyOk : UInt8 := 0x2

def imgFlagVerifyFail : UInt8 := 0x4

def imgFlagIaOk : UInt8 := 0x8

def imgFlagIaFail : UInt8 := 0x10

/-- The ROM's `rom_sys_set_img_flag` on the status of one image, which may be absent. -/
structure StatusRom where
  /-- The status afterwards, of the status before, the mask and the flags. -/
  setImgFlag : Option UInt8 → UInt8 → UInt8 → UInt8

/-- **What the loader relies on**: the bits of the mask get the flags, and the other bits stay
as they are; an absent status counts as one without flags. -/
structure StatusRom.Sets (rom : StatusRom) : Prop where
  masked : ∀ st mask flag, flag &&& mask = flag → rom.setImgFlag st mask flag &&& mask = flag
  kept : ∀ st mask flag m, m &&& mask = 0 →
    rom.setImgFlag st mask flag &&& m = st.getD 0 &&& m

/-! ### The loader and the update -/

/-- What is stored for the two images, and how far the processor has come. -/
inductive Phase where
  /-- At the beginning of `main`. -/
  | off
  /-- `boot_image_find` has chosen an image. -/
  | found (i : Image)
  /-- The image has been validated and its flags say so. -/
  | verified (i : Image)
  /-- The image that is recorded as running runs; `done` of the three flag writes of
  `tkl_ota_end_notify` have been made. -/
  | app (done : Fin 3)
  /-- `NoImageBoot`, with the result of `boot_image_find`. -/
  | noImageBoot (ret : ℤ)

section Loader

variable {C : Type}

/-- The state of the device. -/
structure Device (C : Type) where
  /-- `SYS_IMAGE0_STATUS` and `SYS_IMAGE1_STATUS`; absent when never written. -/
  status : Image → Option UInt8
  content : Image → C
  running : Image
  phase : Phase

/-- `rom_sys_set_img_flag`. -/
def Device.setImgFlag (rom : StatusRom) (d : Device C) (i : Image) (mask flag : UInt8) :
    Device C :=
  { d with status := update d.status i (some (rom.setImgFlag (d.status i) mask flag)) }

/-- An image that is marked as newer and that has not failed. -/
def newerUsable (st : UInt8) : Prop :=
  st &&& imgFlagNewerMask = imgFlagNewer ∧ st &&& imgFlagVerifyMask ≠ imgFlagVerifyFail ∧
    st &&& imgFlagIaMask ≠ imgFlagIaFail

instance : DecidablePred newerUsable := fun _ => inferInstanceAs (Decidable (_ ∧ _ ∧ _))

/-- An image that has been verified, by the loader and by the application. -/
def provenUsable (st : UInt8) : Prop :=
  st &&& imgFlagVerifyMask = imgFlagVerifyOk ∧ st &&& imgFlagIaMask = imgFlagIaOk

instance : DecidablePred provenUsable := fun _ => inferInstanceAs (Decidable (_ ∧ _))

/-- The choice of `boot_image_find`, when a status has been found: the two tests, each of the
image 0 and then of the image 1. -/
def chooseImage (img0 : UInt8) (img1 : Option UInt8) : Except ℤ Image :=
  if newerUsable img0 then .ok .image0
  else if ∃ st ∈ img1, newerUsable st then .ok .image1
  else if provenUsable img0 then .ok .image0
  else if ∃ st ∈ img1, provenUsable st then .ok .image1
  else .error (-5)

/-- `boot_image_find`: the state and the result. -/
def bootImageFind (rom : StatusRom) (d : Device C) : Device C × Except ℤ Image :=
  match d.status .image0, d.status .image1 with
  -- image 0 never downloaded, image 1 should not be downloaded too
  | none, some _ => (d, .error (-4))
  -- newly downloaded
  | none, none => (d.setImgFlag rom .image0 imgFlagNewerMask imgFlagNewer, .ok .image0)
  | some img0, img1 => (d, chooseImage img0 img1)

/-- `main`, up to the choice of the image. -/
def Device.find (rom : StatusRom) (d : Device C) : Device C :=
  match bootImageFind rom d with
  | (d, .ok i) => { d with phase := .found i }
  | (d, .error ret) => { d with phase := .noImageBoot ret }

/-- `main`, the validation of the image `i`; it ends with a reset when that fails. -/
def Device.verify (rom : StatusRom) (validates : C → Bool) (i : Image) (d : Device C) : Device C :=
  if validates (d.content i) then
    { d.setImgFlag rom i imgFlagVerifyMask imgFlagVerifyOk with phase := .verified i }
  else { d.setImgFlag rom i imgFlagVerifyMask imgFlagVerifyFail with phase := .off }

/-- `main`, the jump into the image `i`. -/
def Device.jump (i : Image) (d : Device C) : Device C := { d with running := i, phase := .app 0 }

/-- The flag writes of `tkl_ota_end_notify`, one after the other. -/
def Device.endNotify (rom : StatusRom) (done : Fin 3) (d : Device C) : Device C :=
  match done with
  | 0 =>
    { d.setImgFlag rom d.running (imgFlagIaMask ||| imgFlagNewerMask)
        (imgFlagIaOk ||| imgFlagOlder) with phase := .app 1 }
  | 1 =>
    { d.setImgFlag rom d.running.other
        (imgFlagIaMask ||| imgFlagVerifyMask ||| imgFlagNewerMask) 0 with phase := .app 2 }
  | 2 =>
    { d.setImgFlag rom d.running.other imgFlagNewerMask imgFlagNewer with phase := .app 0 }

/-- The device loses power, or is reset. -/
def Device.reset (d : Device C) : Device C := { d with phase := .off }

/-- **One step**: of the loader, of the update, or the loss of power. -/
inductive Step (rom : StatusRom) (validates : C → Bool) : Device C → Device C → Prop where
  | find {d} (h : d.phase = .off) : Step rom validates d (d.find rom)
  | verify {d i} (h : d.phase = .found i) : Step rom validates d (d.verify rom validates i)
  | jump {d i} (h : d.phase = .verified i) : Step rom validates d (d.jump i)
  /-- A download writes into the image that is not running. -/
  | download {d done} (h : d.phase = .app done) (c : C) :
    Step rom validates d { d with content := update d.content d.running.other c }
  | endNotify {d done} (h : d.phase = .app done) : Step rom validates d (d.endNotify rom done)
  | powerLoss (d) : Step rom validates d d.reset

/-- One boot: `main` from its beginning to the jump, to a reset or to `NoImageBoot`. -/
def Device.boot (rom : StatusRom) (validates : C → Bool) (d : Device C) : Device C :=
  match (d.find rom).phase with
  | .found i =>
    match ((d.find rom).verify rom validates i).phase with
    | .verified j => ((d.find rom).verify rom validates i).jump j
    | _ => (d.find rom).verify rom validates i
  | _ => d.find rom

/-- From the factory: no status has been written, and the image 0 is valid. -/
structure Factory (validates : C → Bool) (d : Device C) : Prop where
  status : ∀ i, d.status i = none
  content : validates (d.content .image0)
  phase : d.phase = .off

/-- An image is marked as newer. -/
def Device.Newer (d : Device C) (i : Image) : Prop :=
  ∃ st ∈ d.status i, st &&& imgFlagNewerMask = imgFlagNewer

/-- An image runs whose content validates. -/
def Device.Boots (validates : C → Bool) (d : Device C) : Prop :=
  (∃ done, d.phase = .app done) ∧ validates (d.content d.running)

end Loader

/-! ### The invariant -/

section Invariant

variable {C : Type} {rom : StatusRom} {validates : C → Bool} {d : Device C}

/-- An image with this status is chosen, unless another one is. -/
def Selectable (st : UInt8) : Prop := newerUsable st ∨ provenUsable st

/-- **Some image is intact and selectable.** -/
def Safe (validates : C → Bool) (d : Device C) : Prop :=
  ∃ p st, d.status p = some st ∧ Selectable st ∧ validates (d.content p)

/-- The image that runs, or is about to, is intact, selectable and verified. -/
def Proven (validates : C → Bool) (d : Device C) (i : Image) (st : UInt8) : Prop :=
  d.status i = some st ∧ Selectable st ∧ st &&& imgFlagVerifyMask = imgFlagVerifyOk ∧
    validates (d.content i)

/-- **What holds in every state**, by how far the processor has come. Once the first of the flag
writes of an update has been made, the running image is not marked as newer any more, and is
verified by the application. -/
structure Inv (validates : C → Bool) (d : Device C) : Prop where
  one : ¬(d.Newer .image0 ∧ d.Newer .image1)
  found0 : d.status .image0 = none → d.phase = .off ∧ Factory validates d
  safe : d.status .image0 ≠ none → Safe validates d
  phase : match d.phase with
    | .off => True
    | .found i => ∃ st, d.status i = some st ∧ Selectable st
    | .verified i => ∃ st, Proven validates d i st
    | .app done => ∃ st, Proven validates d d.running st ∧
        (done ≠ 0 → st &&& imgFlagNewerMask ≠ imgFlagNewer ∧ st &&& imgFlagIaMask = imgFlagIaOk)
    | .noImageBoot _ => False

theorem setImgFlag_status_self (i : Image) (mask flag : UInt8) :
    (d.setImgFlag rom i mask flag).status i = some (rom.setImgFlag (d.status i) mask flag) :=
  update_self ..

theorem setImgFlag_status_of_ne {i j : Image} (h : j ≠ i) (mask flag : UInt8) :
    (d.setImgFlag rom i mask flag).status j = d.status j :=
  update_of_ne h _ _

theorem Image.other_ne (i : Image) : i.other ≠ i := by
  cases i <;> decide

/-- The choice is a selectable image. -/
theorem chooseImage_ok {img0 : UInt8} {img1 : Option UInt8} {i : Image}
    (h : chooseImage img0 img1 = .ok i) :
    (i = .image0 ∧ Selectable img0) ∨ (i = .image1 ∧ ∃ st ∈ img1, Selectable st) := by
  rw [chooseImage] at h
  split at h
  · next hn =>
    cases h
    exact .inl ⟨rfl, .inl hn⟩
  split at h
  · next hn =>
    cases h
    obtain ⟨st, hst, hn⟩ := hn
    exact .inr ⟨rfl, st, hst, .inl hn⟩
  split at h
  · next hp =>
    cases h
    exact .inl ⟨rfl, .inr hp⟩
  split at h
  · next hp =>
    cases h
    obtain ⟨st, hst, hp⟩ := hp
    exact .inr ⟨rfl, st, hst, .inr hp⟩
  · cases h

/-- There is no choice only when no image is selectable. -/
theorem chooseImage_error {img0 : UInt8} {img1 : Option UInt8} {ret : ℤ}
    (h : chooseImage img0 img1 = .error ret) :
    ¬Selectable img0 ∧ ∀ st ∈ img1, ¬Selectable st := by
  rw [chooseImage] at h
  split at h
  · cases h
  next hn0 =>
  split at h
  · cases h
  next hn1 =>
  split at h
  · cases h
  next hp0 =>
  split at h
  · cases h
  next hp1 =>
  refine ⟨fun hs => hs.elim hn0 hp0, fun st hst hs => ?_⟩
  exact hs.elim (fun hn => hn1 ⟨st, hst, hn⟩) fun hp => hp1 ⟨st, hst, hp⟩

/-- A flag that is not in the mask stays. -/
theorem StatusRom.Sets.keeps (hrom : rom.Sets) {st : UInt8} {mask flag m : UInt8}
    (h : m &&& mask = 0) : rom.setImgFlag (some st) mask flag &&& m = st &&& m :=
  hrom.kept (some st) mask flag m h

/-- A selectable image stays selectable when it is verified. -/
theorem selectable_verifyOk (hrom : rom.Sets) {st : UInt8} (h : Selectable st) :
    Selectable (rom.setImgFlag (some st) imgFlagVerifyMask imgFlagVerifyOk) ∧
      rom.setImgFlag (some st) imgFlagVerifyMask imgFlagVerifyOk &&& imgFlagVerifyMask =
        imgFlagVerifyOk := by
  have hv := hrom.masked (some st) imgFlagVerifyMask imgFlagVerifyOk (by decide)
  refine ⟨?_, hv⟩
  rcases h with ⟨hn, -, hia⟩ | ⟨-, hia⟩
  · refine .inl ⟨?_, ?_, ?_⟩
    · rw [hrom.keeps (by decide)]
      exact hn
    · rw [hv]
      decide
    · rw [hrom.keeps (by decide)]
      exact hia
  · refine .inr ⟨hv, ?_⟩
    rw [hrom.keeps (by decide)]
    exact hia

/-- An image that has failed is not selectable. -/
theorem not_selectable_of_verifyFail {st : UInt8}
    (h : st &&& imgFlagVerifyMask = imgFlagVerifyFail) : ¬Selectable st := by
  rintro (⟨-, hv, -⟩ | ⟨hv, -⟩)
  · exact hv h
  · rw [h] at hv
    exact absurd hv (by decide)

/-- A write that does not touch the mark `NEWER` keeps the images that carry it. -/
theorem newer_setImgFlag (hrom : rom.Sets) {i j : Image} {mask flag : UInt8}
    (h : imgFlagNewerMask &&& mask = 0) (hi : d.status i ≠ none) :
    (d.setImgFlag rom i mask flag).Newer j ↔ d.Newer j := by
  by_cases hji : j = i
  · subst hji
    obtain ⟨st, hst⟩ := ne_none_iff_exists'.mp hi
    rw [Device.Newer, Device.Newer, setImgFlag_status_self, hst]
    simp only [mem_def, Option.some.injEq, exists_eq_left', hrom.keeps h]
  · rw [Device.Newer, Device.Newer, setImgFlag_status_of_ne hji]

/-- A state in which an image is proven is safe. -/
theorem Proven.safe {i : Image} {st : UInt8} (h : Proven validates d i st) : Safe validates d :=
  ⟨i, st, h.1, h.2.1, h.2.2.2⟩

end Invariant

/-! ### Steps -/

section Steps

variable {C : Type} {rom : StatusRom} {validates : C → Bool} {d : Device C}

/-- The bits of a part of a mask. -/
theorem and_eq_of_and_eq {x mask m flag : UInt8} (h : x &&& mask = flag) (hm : mask &&& m = m) :
    x &&& m = flag &&& m := by
  calc x &&& m = x &&& (mask &&& m) := by rw [hm]
    _ = flag &&& m := by rw [← UInt8.and_assoc, h]

theorem not_both_newer {i : Image} (h : ¬d.Newer i) : ¬(d.Newer .image0 ∧ d.Newer .image1) := by
  rintro ⟨h0, h1⟩
  cases i with
  | image0 => exact h h0
  | image1 => exact h h1

theorem Inv.status_ne_none (h : Inv validates d) (hphase : d.phase ≠ .off) :
    d.status .image0 ≠ none := fun hnone => hphase (h.found0 hnone).1

/-- A status that has been written stays written. -/
theorem setImgFlag_ne_none {i j : Image} {mask flag : UInt8} (h : d.status j ≠ none) :
    (d.setImgFlag rom i mask flag).status j ≠ none := by
  by_cases hji : j = i
  · subst hji
    rw [setImgFlag_status_self]
    exact some_ne_none _
  · rwa [setImgFlag_status_of_ne hji]

/-- `boot_image_find` chooses a selectable image. -/
theorem Inv.find (hrom : rom.Sets) (h : Inv validates d) :
    ∃ i, (d.find rom).phase = .found i ∧ Inv validates (d.find rom) := by
  rw [Device.find, bootImageFind]
  cases h0 : d.status .image0 with
  | none =>
    have hfactory := (h.found0 h0).2
    rw [hfactory.status .image1]
    refine ⟨.image0, rfl, not_both_newer (i := .image1) ?_, fun hnone => ?_, fun _ => ?_, ?_⟩
    · -- the image 1 has no status
      rintro ⟨st, hst, -⟩
      rw [mem_def, setImgFlag_status_of_ne (by decide), hfactory.status] at hst
      cases hst
    · cases hnone
    all_goals
      have hsel : Selectable (rom.setImgFlag none imgFlagNewerMask imgFlagNewer) := by
        refine .inl ⟨hrom.masked _ _ _ (by decide), ?_, ?_⟩
        · rw [hrom.kept none _ _ _ (by decide)]
          decide
        · rw [hrom.kept none _ _ _ (by decide)]
          decide
      have hst : (d.setImgFlag rom .image0 imgFlagNewerMask imgFlagNewer).status .image0 =
          some (rom.setImgFlag none imgFlagNewerMask imgFlagNewer) := by
        rw [setImgFlag_status_self, h0]
    · exact ⟨.image0, _, hst, hsel, hfactory.content⟩
    · exact ⟨_, hst, hsel⟩
  | some img0 =>
    have hne : d.status .image0 ≠ none := by
      rw [h0]
      exact some_ne_none _
    dsimp only
    cases hc : chooseImage img0 (d.status .image1) with
    | error ret =>
      -- but some image is selectable
      obtain ⟨hn0, hn1⟩ := chooseImage_error hc
      obtain ⟨p, st, hst, hsel, -⟩ := h.safe hne
      cases p with
      | image0 =>
        obtain rfl := Option.some.inj (h0.symm.trans hst)
        exact absurd hsel hn0
      | image1 => exact absurd hsel (hn1 st hst)
    | ok i =>
      refine ⟨i, rfl, h.one, fun hnone => absurd hnone hne, fun _ => h.safe hne, ?_⟩
      rcases chooseImage_ok hc with ⟨rfl, hsel⟩ | ⟨rfl, st, hst, hsel⟩
      · exact ⟨img0, h0, hsel⟩
      · exact ⟨st, hst, hsel⟩

/-- The validation of a chosen image that is valid. -/
theorem Inv.verify_ok (hrom : rom.Sets) (h : Inv validates d) {i : Image}
    (hphase : d.phase = .found i) (hvalid : validates (d.content i)) :
    (d.verify rom validates i).phase = .verified i ∧ Inv validates (d.verify rom validates i) := by
  have hp := h.phase
  rw [hphase] at hp
  obtain ⟨st, hst, hsel⟩ := hp
  have hi : d.status i ≠ none := by
    rw [hst]
    exact some_ne_none _
  have hne : d.status .image0 ≠ none := h.status_ne_none (by rw [hphase]; exact Phase.noConfusion)
  obtain ⟨hsel', hv⟩ := selectable_verifyOk hrom hsel
  have hproven : Proven validates (d.verify rom validates i) i
      (rom.setImgFlag (some st) imgFlagVerifyMask imgFlagVerifyOk) := by
    rw [Device.verify, if_pos hvalid]
    exact ⟨by rw [setImgFlag_status_self, hst], hsel', hv, hvalid⟩
  rw [Device.verify, if_pos hvalid] at hproven ⊢
  refine ⟨rfl, ?_, fun hnone => absurd hnone (setImgFlag_ne_none hne), fun _ => hproven.safe,
    _, hproven⟩
  rintro ⟨h0, h1⟩
  exact h.one ⟨(newer_setImgFlag hrom (by decide) hi).mp h0,
    (newer_setImgFlag hrom (by decide) hi).mp h1⟩

/-- The validation of a chosen image that is not valid: it is not chosen again. -/
theorem Inv.verify_fail (hrom : rom.Sets) (h : Inv validates d) {i : Image}
    (hphase : d.phase = .found i) (hvalid : ¬validates (d.content i)) :
    (d.verify rom validates i).phase = .off ∧ Inv validates (d.verify rom validates i) ∧
      ∀ st, (d.verify rom validates i).status i = some st → ¬Selectable st := by
  have hp := h.phase
  rw [hphase] at hp
  obtain ⟨st, hst, hsel⟩ := hp
  have hi : d.status i ≠ none := by
    rw [hst]
    exact some_ne_none _
  have hne : d.status .image0 ≠ none := h.status_ne_none (by rw [hphase]; exact Phase.noConfusion)
  rw [Device.verify, if_neg hvalid]
  refine ⟨rfl, ⟨?_, fun hnone => absurd hnone (setImgFlag_ne_none hne), fun _ => ?_, trivial⟩, ?_⟩
  · rintro ⟨h0, h1⟩
    exact h.one ⟨(newer_setImgFlag hrom (by decide) hi).mp h0,
      (newer_setImgFlag hrom (by decide) hi).mp h1⟩
  · -- the intact image is the other one
    obtain ⟨p, st', hst', hsel', hvalid'⟩ := h.safe hne
    have hpi : p ≠ i := by
      rintro rfl
      exact hvalid hvalid'
    refine ⟨p, st', ?_, hsel', hvalid'⟩
    rw [← hst']
    exact setImgFlag_status_of_ne hpi _ _
  · intro st' hst'
    have heq := (@setImgFlag_status_self C rom d i imgFlagVerifyMask
      imgFlagVerifyFail).symm.trans hst'
    obtain rfl := Option.some.inj heq
    exact not_selectable_of_verifyFail (hrom.masked _ _ _ (by decide))

theorem Inv.jump (h : Inv validates d) {i : Image} (hphase : d.phase = .verified i) :
    Inv validates (d.jump i) := by
  have hp := h.phase
  rw [hphase] at hp
  obtain ⟨st, hproven⟩ := hp
  have hne : d.status .image0 ≠ none := h.status_ne_none (by rw [hphase]; exact Phase.noConfusion)
  exact ⟨h.one, fun hnone => absurd hnone hne, h.safe, st, hproven, fun hc => absurd rfl hc⟩

theorem Inv.download (h : Inv validates d) {done : Fin 3} (hphase : d.phase = .app done) (c : C) :
    Inv validates { d with content := update d.content d.running.other c } := by
  have hp := h.phase
  rw [hphase] at hp
  obtain ⟨st, ⟨hst, hsel, hv, hvalid⟩, hdone⟩ := hp
  have hne : d.status .image0 ≠ none := h.status_ne_none (by rw [hphase]; exact Phase.noConfusion)
  have hproven : Proven validates
      { d with content := update d.content d.running.other c } d.running st := by
    refine ⟨hst, hsel, hv, ?_⟩
    have hcontent : update d.content d.running.other c d.running = d.content d.running :=
      update_of_ne (Ne.symm (Image.other_ne _)) _ _
    exact (congrArg (fun x => validates x = true) hcontent).mpr hvalid
  refine ⟨h.one, fun hnone => absurd hnone hne, fun _ => hproven.safe, ?_⟩
  simp only [hphase]
  exact ⟨st, hproven, hdone⟩

theorem Inv.endNotify (hrom : rom.Sets) (h : Inv validates d) {done : Fin 3}
    (hphase : d.phase = .app done) : Inv validates (d.endNotify rom done) := by
  have hp := h.phase
  rw [hphase] at hp
  obtain ⟨st, hproven, hdone⟩ := hp
  have hne : d.status .image0 ≠ none := h.status_ne_none (by rw [hphase]; exact Phase.noConfusion)
  obtain ⟨hst, hsel, hv, hvalid⟩ := hproven
  have hother : d.running ≠ d.running.other := Ne.symm (Image.other_ne _)
  have hkeep : ∀ mask flag,
      Proven validates (d.setImgFlag rom d.running.other mask flag) d.running st := fun mask flag =>
    ⟨(setImgFlag_status_of_ne hother _ _).trans hst, hsel, hv, hvalid⟩
  match done with
  | 0 =>
    -- the running image is older now, and verified by the application
    have hm := hrom.masked (some st) (imgFlagIaMask ||| imgFlagNewerMask)
      (imgFlagIaOk ||| imgFlagOlder) (by decide)
    have hk : rom.setImgFlag (some st) (imgFlagIaMask ||| imgFlagNewerMask)
        (imgFlagIaOk ||| imgFlagOlder) &&& imgFlagVerifyMask = imgFlagVerifyOk :=
      (hrom.keeps (by decide)).trans hv
    have hst' := @setImgFlag_status_self C rom d d.running
      (imgFlagIaMask ||| imgFlagNewerMask) (imgFlagIaOk ||| imgFlagOlder)
    rw [hst] at hst'
    generalize rom.setImgFlag (some st) (imgFlagIaMask ||| imgFlagNewerMask)
      (imgFlagIaOk ||| imgFlagOlder) = st' at hm hk hst'
    have hnewer : st' &&& imgFlagNewerMask ≠ imgFlagNewer := by
      rw [and_eq_of_and_eq hm (by decide)]
      decide
    have hia : st' &&& imgFlagIaMask = imgFlagIaOk := by
      rw [and_eq_of_and_eq hm (by decide)]
      decide
    have hproven : Proven validates (d.endNotify rom 0) d.running st' :=
      ⟨hst', .inr ⟨hk, hia⟩, hk, hvalid⟩
    refine ⟨not_both_newer (i := d.running) ?_, fun hnone => absurd hnone (setImgFlag_ne_none hne),
      fun _ => hproven.safe, st', hproven, fun _ => ⟨hnewer, hia⟩⟩
    rintro ⟨st₁, hst₁, hn₁⟩
    obtain rfl := Option.some.inj (hst'.symm.trans hst₁)
    exact hnewer hn₁
  | 1 =>
    -- the other image has no flags now
    have hm := hrom.masked (d.status d.running.other)
      (imgFlagIaMask ||| imgFlagVerifyMask ||| imgFlagNewerMask) 0 (by decide)
    have hst' := @setImgFlag_status_self C rom d d.running.other
      (imgFlagIaMask ||| imgFlagVerifyMask ||| imgFlagNewerMask) 0
    refine ⟨not_both_newer (i := d.running.other) ?_,
      fun hnone => absurd hnone (setImgFlag_ne_none hne), fun _ => (hkeep _ _).safe, st, hkeep _ _,
      fun _ => hdone (by decide)⟩
    rintro ⟨st₁, hst₁, hn₁⟩
    obtain rfl := Option.some.inj (hst'.symm.trans hst₁)
    rw [and_eq_of_and_eq hm (by decide)] at hn₁
    exact absurd hn₁ (by decide)
  | 2 =>
    -- the other image is the newer one, and the running one is not
    refine ⟨not_both_newer (i := d.running) ?_, fun hnone => absurd hnone (setImgFlag_ne_none hne),
      fun _ => (hkeep _ _).safe, st, hkeep _ _, fun hc => absurd rfl hc⟩
    rintro ⟨st₁, hst₁, hn₁⟩
    have hst₂ := (@setImgFlag_status_of_ne C rom d _ _ hother imgFlagNewerMask
      imgFlagNewer).symm.trans hst₁
    obtain rfl := Option.some.inj (hst.symm.trans hst₂)
    exact (hdone (by decide)).1 hn₁

theorem Inv.reset (h : Inv validates d) : Inv validates d.reset :=
  ⟨h.one, fun hnone => ⟨rfl, (h.found0 hnone).2.status, (h.found0 hnone).2.content, rfl⟩, h.safe,
    trivial⟩

/-- **A step keeps the invariant.** -/
theorem Inv.step (hrom : rom.Sets) (h : Inv validates d) {d' : Device C}
    (hstep : Step rom validates d d') : Inv validates d' := by
  cases hstep with
  | find _ =>
    obtain ⟨-, -, hinv⟩ := h.find hrom
    exact hinv
  | @verify i hphase =>
    by_cases hvalid : validates (d.content i) = true
    · exact (h.verify_ok hrom hphase hvalid).2
    · exact (h.verify_fail hrom hphase hvalid).2.1
  | jump hphase => exact h.jump hphase
  | download hphase c => exact h.download hphase c
  | endNotify hphase => exact h.endNotify hrom hphase
  | powerLoss => exact h.reset

end Steps

/-! ### Runs -/

section Runs

variable {C : Type} {rom : StatusRom} {validates : C → Bool} {d : Device C}

theorem Factory.inv (h : Factory validates d) : Inv validates d := by
  refine ⟨?_, fun _ => ⟨h.phase, h⟩, fun hne => absurd (h.status .image0) hne, ?_⟩
  · refine not_both_newer (i := .image0) ?_
    rintro ⟨st, hst, -⟩
    rw [mem_def, h.status] at hst
    cases hst
  · rw [h.phase]
    trivial

/-- A run of steps keeps the invariant. -/
theorem Inv.run (hrom : rom.Sets) (h : Inv validates d) {d' : Device C}
    (hrun : Relation.ReflTransGen (Step rom validates) d d') : Inv validates d' := by
  induction hrun with
  | refl => exact h
  | tail _ hstep ih => exact ih.step hrom hstep

/-- A boot that chooses a valid image. -/
theorem Inv.boot_ok (hrom : rom.Sets) (h : Inv validates (d.find rom)) {i : Image}
    (hphase : (d.find rom).phase = .found i) (hvalid : validates ((d.find rom).content i)) :
    (d.boot rom validates).Boots validates := by
  obtain ⟨hverified, hinv⟩ := h.verify_ok hrom hphase hvalid
  have hboot : d.boot rom validates = ((d.find rom).verify rom validates i).jump i := by
    rw [Device.boot, hphase]
    dsimp only
    rw [hverified]
  rw [hboot]
  refine ⟨⟨0, rfl⟩, ?_⟩
  rw [Device.verify, if_pos hvalid]
  exact hvalid

/-- Once a status has been written, the choice changes nothing. -/
theorem find_of_ne_none (h : d.status .image0 ≠ none) :
    (d.find rom).status = d.status ∧ (d.find rom).content = d.content := by
  obtain ⟨st, hst⟩ := ne_none_iff_exists'.mp h
  rw [Device.find, bootImageFind, hst]
  dsimp only
  cases chooseImage st (d.status .image1) <;> exact ⟨rfl, rfl⟩

/-- **Two boots reach an image that validates.** The first may choose the image that does not,
and marks it; the second cannot choose it again. -/
theorem Inv.boots (hrom : rom.Sets) (h : Inv validates d) :
    ∃ n, n < 2 ∧ (Nat.iterate (Device.boot rom validates) (n + 1) d).Boots validates := by
  obtain ⟨i, hphase, hinv⟩ := h.find hrom
  by_cases hvalid : validates ((d.find rom).content i) = true
  · exact ⟨0, by decide, hinv.boot_ok hrom hphase hvalid⟩
  · obtain ⟨hoff, hinv', hnot⟩ := hinv.verify_fail hrom hphase hvalid
    have hboot : d.boot rom validates = (d.find rom).verify rom validates i := by
      rw [Device.boot, hphase]
      dsimp only
      rw [hoff]
    obtain ⟨j, hphase', hinv''⟩ := hinv'.find hrom
    refine ⟨1, by decide, ?_⟩
    rw [Function.iterate_succ_apply, hboot]
    refine hinv''.boot_ok hrom hphase' ?_
    -- an intact image is selectable, and the one that failed is not
    have hne : ((d.find rom).verify rom validates i).status .image0 ≠ none := by
      rw [Device.verify, if_neg hvalid]
      exact setImgFlag_ne_none (hinv.status_ne_none (by rw [hphase]; exact Phase.noConfusion))
    obtain ⟨hstatus, hcontent⟩ := @find_of_ne_none _ rom _ hne
    have hsel := hinv''.phase
    rw [hphase', hstatus] at hsel
    obtain ⟨st, hst, hsel⟩ := hsel
    have hji : j ≠ i := by
      rintro rfl
      exact hnot st hst hsel
    obtain ⟨p, -, -, -, hp⟩ := hinv'.safe hne
    have hsame : ((d.find rom).verify rom validates i).content = (d.find rom).content := by
      rw [Device.verify, if_neg hvalid]
      rfl
    have hpi : p ≠ i := by
      rintro rfl
      rw [hsame] at hp
      exact hvalid hp
    have hpj : p = j := by
      cases p <;> cases j <;> cases i <;> first | rfl | exact absurd rfl hpi | exact absurd rfl hji
    rw [hcontent, ← hpj]
    exact hp

/-- **No update bricks the device.** From the factory state, whatever is downloaded and whenever
power is lost: at most one image is marked as newer, the loader never gives up, an image runs only
when its content validates, and from any state at most two boots reach such an image. -/
theorem boot_safe (hrom : rom.Sets) (hd : Factory validates d) {d' : Device C}
    (hrun : Relation.ReflTransGen (Step rom validates) d d') :
    ¬(d'.Newer .image0 ∧ d'.Newer .image1) ∧ (∀ ret, d'.phase ≠ .noImageBoot ret) ∧
      (∀ done, d'.phase = .app done → validates (d'.content d'.running)) ∧
      ∃ n, n < 2 ∧ (Nat.iterate (Device.boot rom validates) (n + 1) d'.reset).Boots validates := by
  have hinv := hd.inv.run hrom hrun
  refine ⟨hinv.one, fun ret hphase => ?_, fun done hphase => ?_, hinv.reset.boots hrom⟩
  · have hp := hinv.phase
    rw [hphase] at hp
    exact hp
  · have hp := hinv.phase
    rw [hphase] at hp
    obtain ⟨st, hproven, -⟩ := hp
    exact hproven.2.2.2

/-- The ROM, as its flags are documented. -/
def maskRom : StatusRom := ⟨fun st mask flag => (st.getD 0 &&& ~~~mask) ||| (flag &&& mask)⟩

theorem maskRom_sets : maskRom.Sets := by
  refine ⟨fun st mask flag h => ?_, fun st mask flag m h => ?_⟩
  · rw [← h]
    refine UInt8.toBitVec_inj.mp (BitVec.eq_of_getElem_eq fun k hk => ?_)
    simp only [maskRom, UInt8.toBitVec_and, UInt8.toBitVec_or, UInt8.toBitVec_not,
      BitVec.getElem_and, BitVec.getElem_or, BitVec.getElem_not]
    grind
  · have hbit : ∀ k (hk : k < 8), (m.toBitVec[k] && mask.toBitVec[k]) = false := by
      intro k hk
      have := congrArg (fun x : UInt8 => x.toBitVec[k]) h
      simpa using this
    refine UInt8.toBitVec_inj.mp (BitVec.eq_of_getElem_eq fun k hk => ?_)
    simp only [maskRom, UInt8.toBitVec_and, UInt8.toBitVec_or, UInt8.toBitVec_not,
      BitVec.getElem_and, BitVec.getElem_or, BitVec.getElem_not]
    grind

/-- A device from the factory, with contents that are valid or not. -/
def factoryDevice : Device Bool := ⟨fun _ => none, fun i => i = .image0, .image0, .off⟩

theorem boot_safe_factory :
    ¬(factoryDevice.reset.Newer .image0 ∧ factoryDevice.reset.Newer .image1) ∧
      (∀ ret, factoryDevice.reset.phase ≠ .noImageBoot ret) ∧
      (∀ done, factoryDevice.reset.phase = .app done →
        (fun b : Bool => b) (factoryDevice.reset.content factoryDevice.reset.running)) ∧
      ∃ n, n < 2 ∧
        (Nat.iterate (Device.boot maskRom fun b => b) (n + 1) factoryDevice.reset.reset).Boots
          fun b => b :=
  @boot_safe Bool maskRom (fun b => b) _ maskRom_sets ⟨fun _ => rfl, rfl, rfl⟩ _
    (.single (.powerLoss factoryDevice))

end Runs

/-! ### What an update comes to -/

section Update

variable {C : Type} {rom : StatusRom} {validates : C → Bool} {d : Device C} {i : Image}

/-- A step that is not one of the application: of the loader, or the loss of power. -/
def LoaderStep (rom : StatusRom) (validates : C → Bool) (d d' : Device C) : Prop :=
  (Step rom validates d d' ∧ ∀ done, d.phase ≠ .app done) ∨ d' = d.reset

/-- A whole update: the download of `c`, the three flag writes and the reset. -/
def Device.updated (rom : StatusRom) (c : C) (d : Device C) : Device C :=
  (((({ d with content := update d.content d.running.other c } : Device C).endNotify rom
    0).endNotify rom 1).endNotify rom 2).reset

/-- **The boots come to the image `i`**: it is intact and selectable, and it is chosen before the
other one should that one validate too. -/
structure Settles (validates : C → Bool) (i : Image) (d : Device C) : Prop where
  written : d.status .image0 ≠ none
  content : validates (d.content i)
  status : ∃ st, d.status i = some st ∧ Selectable st ∧
    (validates (d.content i.other) → newerUsable st ∧ ¬d.Newer i.other)
  phase : match d.phase with
    | .off => True
    | .found j => j = i ∨ ¬validates (d.content j)
    | .verified j => j = i
    | .app _ => d.running = i
    | .noImageBoot _ => False

/-- An image that alone is marked as newer is chosen. -/
theorem chooseImage_of_newer {st img0 : UInt8} (hst : d.status i = some st) (hn : newerUsable st)
    (hother : ¬d.Newer i.other) (h0 : d.status .image0 = some img0) :
    chooseImage img0 (d.status .image1) = .ok i := by
  cases i with
  | image0 =>
    obtain rfl := Option.some.inj (h0.symm.trans hst)
    rw [chooseImage, if_pos hn]
  | image1 =>
    have hn0 : ¬newerUsable img0 := fun h => hother ⟨img0, h0, h.1⟩
    rw [chooseImage, if_neg hn0, if_pos ⟨st, hst, hn⟩]

theorem Image.eq_other {j : Image} (h : j ≠ i) : j = i.other := by
  cases i <;> cases j <;> first | rfl | exact absurd rfl h

theorem Settles.find (h : Settles validates i d) : Settles validates i (d.find rom) := by
  obtain ⟨img0, h0⟩ := ne_none_iff_exists'.mp h.written
  obtain ⟨st, hst, hsel, hboth⟩ := h.status
  rw [Device.find, bootImageFind, h0]
  dsimp only
  cases hc : chooseImage img0 (d.status .image1) with
  | error ret =>
    -- but the image is selectable
    obtain ⟨hn0, hn1⟩ := chooseImage_error hc
    cases i with
    | image0 =>
      obtain rfl := Option.some.inj (h0.symm.trans hst)
      exact absurd hsel hn0
    | image1 => exact absurd hsel (hn1 st hst)
  | ok j =>
    refine ⟨h.written, h.content, h.status, or_iff_not_imp_left.mpr fun hji hvalid => hji ?_⟩
    rw [Image.eq_other hji] at hvalid
    obtain ⟨hn, hother⟩ := hboth hvalid
    exact Except.ok.inj (hc.symm.trans (chooseImage_of_newer hst hn hother h0))

/-- An image that is marked as newer stays usable when it is verified. -/
theorem newerUsable_verifyOk (hrom : rom.Sets) {st : UInt8} (h : newerUsable st) :
    newerUsable (rom.setImgFlag (some st) imgFlagVerifyMask imgFlagVerifyOk) := by
  obtain ⟨hn, -, hia⟩ := h
  refine ⟨?_, ?_, ?_⟩
  · rw [hrom.keeps (by decide)]
    exact hn
  · rw [hrom.masked _ _ _ (by decide)]
    decide
  · rw [hrom.keeps (by decide)]
    exact hia

theorem Settles.verify (hrom : rom.Sets) (h : Settles validates i d) {j : Image}
    (hphase : d.phase = .found j) : Settles validates i (d.verify rom validates j) := by
  have hfound := h.phase
  rw [hphase] at hfound
  obtain ⟨st, hst, hsel, hboth⟩ := h.status
  by_cases hvalid : validates (d.content j) = true
  · obtain rfl := hfound.resolve_right (not_not_intro hvalid)
    rw [Device.verify, if_pos hvalid]
    refine ⟨setImgFlag_ne_none h.written, h.content, ⟨_, ?_, (selectable_verifyOk hrom hsel).1,
      fun hother => ⟨newerUsable_verifyOk hrom (hboth hother).1, ?_⟩⟩, rfl⟩
    · rw [← hst]
      exact setImgFlag_status_self ..
    · rintro ⟨st', hst', hn⟩
      exact (hboth hother).2 ⟨st', (setImgFlag_status_of_ne j.other_ne _ _).symm.trans hst', hn⟩
  · -- the image that fails is the other one
    have hji : j ≠ i := by
      rintro rfl
      exact hvalid h.content
    rw [Device.verify, if_neg hvalid]
    refine ⟨setImgFlag_ne_none h.written, h.content, ⟨st, ?_, hsel, fun hother => ?_⟩, trivial⟩
    · rw [← hst]
      exact setImgFlag_status_of_ne hji.symm _ _
    · rw [Image.eq_other hji] at hvalid
      exact absurd hother hvalid

/-- **A loader step goes on towards the image.** -/
theorem Settles.step (hrom : rom.Sets) (h : Settles validates i d) {d' : Device C}
    (hstep : LoaderStep rom validates d d') : Settles validates i d' := by
  rcases hstep with ⟨hstep, happ⟩ | rfl
  · cases hstep with
    | find _ => exact h.find
    | verify hphase => exact h.verify hrom hphase
    | jump hphase =>
      have hp := h.phase
      rw [hphase] at hp
      exact ⟨h.written, h.content, h.status, hp⟩
    | download hphase c => exact absurd hphase (happ _)
    | endNotify hphase => exact absurd hphase (happ _)
    | powerLoss => exact ⟨h.written, h.content, h.status, trivial⟩
  · exact ⟨h.written, h.content, h.status, trivial⟩

theorem Settles.run (hrom : rom.Sets) (h : Settles validates i d) {d' : Device C}
    (hrun : Relation.ReflTransGen (LoaderStep rom validates) d d') : Settles validates i d' := by
  induction hrun with
  | refl => exact h
  | tail _ hstep ih => exact ih.step hrom hstep

/-- A boot is a run of the loader. -/
theorem Settles.boot (hrom : rom.Sets) (h : Settles validates i d) :
    Settles validates i (d.boot rom validates) := by
  rw [Device.boot]
  split
  · next j hfound =>
    have hverify := h.find.verify hrom hfound
    split
    · next k hverified => exact hverify.step hrom (.inl ⟨.jump hverified, by simp [hverified]⟩)
    · exact hverify
  · exact h.find

theorem Settles.boots (hrom : rom.Sets) (h : Settles validates i d) (n : ℕ) :
    Settles validates i (Nat.iterate (Device.boot rom validates) n d) := by
  induction n generalizing d with
  | zero => exact h
  | succ n ih => exact ih (h.boot hrom)

/-- The last two flag writes of an update leave the other image marked as newer and usable. -/
theorem newerUsable_endNotify (hrom : rom.Sets) (d : Device C) :
    ∃ st, ((d.endNotify rom 1).endNotify rom 2).status d.running.other = some st ∧
      newerUsable st := by
  have hcleared := hrom.masked (d.status d.running.other)
    (imgFlagIaMask ||| imgFlagVerifyMask ||| imgFlagNewerMask) 0 (by decide)
  have hst := @setImgFlag_status_self C rom d d.running.other
    (imgFlagIaMask ||| imgFlagVerifyMask ||| imgFlagNewerMask) 0
  generalize rom.setImgFlag (d.status d.running.other)
    (imgFlagIaMask ||| imgFlagVerifyMask ||| imgFlagNewerMask) 0 = s at hcleared hst
  refine ⟨rom.setImgFlag (some s) imgFlagNewerMask imgFlagNewer, ?_,
    hrom.masked _ _ _ (by decide), ?_, ?_⟩
  · rw [← hst]
    exact setImgFlag_status_self ..
  · rw [hrom.keeps (by decide), and_eq_of_and_eq hcleared (by decide)]
    decide
  · rw [hrom.keeps (by decide), and_eq_of_and_eq hcleared (by decide)]
    decide

theorem Image.other_other (i : Image) : i.other.other = i := by
  cases i <;> rfl

/-- The state before the last flag write. -/
theorem Inv.cleared (hrom : rom.Sets) (h : Inv validates d) (happ : d.phase = .app 0) (c : C) :
    Inv validates ((({ d with content := update d.content d.running.other c } :
      Device C).endNotify rom 0).endNotify rom 1) := by
  have hproven := (h.download happ c).endNotify hrom happ
  exact hproven.endNotify hrom (show _ = Phase.app 1 from rfl)

theorem Inv.updated (hrom : rom.Sets) (h : Inv validates d) (happ : d.phase = .app 0) (c : C) :
    Inv validates (d.updated rom c) := by
  have hmarked := (h.cleared hrom happ c).endNotify hrom (show _ = Phase.app 2 from rfl)
  exact hmarked.reset

/-- After an update the boots come to the new image, if it validates, and else to the old one. -/
theorem Inv.settles (hrom : rom.Sets) (h : Inv validates d) (happ : d.phase = .app 0) (c : C) :
    Settles validates (if validates c then d.running.other else d.running) (d.updated rom c) := by
  have hcleared := h.cleared hrom happ c
  obtain ⟨st, ⟨hst, hsel, -, hvalid⟩, hdone⟩ := hcleared.phase
  have hwritten : (d.updated rom c).status .image0 ≠ none :=
    setImgFlag_ne_none (hcleared.status_ne_none Phase.noConfusion)
  -- the third write is to the other image
  have hold : (d.updated rom c).status d.running = some st :=
    (setImgFlag_status_of_ne d.running.other_ne.symm _ _).trans hst
  have hnew : (d.updated rom c).content d.running.other = c := update_self ..
  split
  · next hc =>
    obtain ⟨s, hs, hn⟩ := newerUsable_endNotify hrom
      (({ d with content := update d.content d.running.other c } : Device C).endNotify rom 0)
    refine ⟨hwritten, by rwa [hnew], ⟨s, hs, .inl hn, fun _ => ⟨hn, ?_⟩⟩, trivial⟩
    rw [Image.other_other]
    rintro ⟨st', hst', hnewer⟩
    obtain rfl := Option.some.inj (hold.symm.trans hst')
    exact (hdone (by decide)).1 hnewer
  · next hc =>
    refine ⟨hwritten, hvalid, ⟨st, hold, hsel, fun hother => ?_⟩, trivial⟩
    rw [hnew] at hother
    exact absurd hother hc

/-- **An update is taken or rolled back.** Whatever has been downloaded, and however often power
is lost on the way: once the update has been finished, what runs is the new image, if it
validates, and the image that ran before, if it does not; and at most two boots reach it. -/
theorem update_or_rollback (hrom : rom.Sets) (hd : Factory validates d) {e f : Device C}
    (hrun : Relation.ReflTransGen (Step rom validates) d e) (happ : e.phase = .app 0) (c : C)
    (hload : Relation.ReflTransGen (LoaderStep rom validates) (e.updated rom c) f) :
    (∀ done, f.phase = .app done →
        f.running = if validates c then e.running.other else e.running) ∧
      ∃ n, n < 2 ∧ (Nat.iterate (Device.boot rom validates) (n + 1) f).Boots validates ∧
        (Nat.iterate (Device.boot rom validates) (n + 1) f).running =
          if validates c then e.running.other else e.running := by
  have hinv := hd.inv.run hrom hrun
  have hsettles := (hinv.settles hrom happ c).run hrom hload
  have hruns : ∀ {g : Device C} {i : Image}, Settles validates i g →
      ∀ done, g.phase = .app done → g.running = i := by
    intro g i hg done hphase
    have hp := hg.phase
    rwa [hphase] at hp
  refine ⟨hruns hsettles, ?_⟩
  have hload' : Relation.ReflTransGen (Step rom validates) (e.updated rom c) f := by
    refine Relation.ReflTransGen.mono (fun a b hab => ?_) _ _ hload
    rcases hab with ⟨hstep, -⟩ | rfl
    · exact hstep
    · exact .powerLoss a
  obtain ⟨n, hn, hboots⟩ := ((hinv.updated hrom happ c).run hrom hload').boots hrom
  obtain ⟨done, hphase⟩ := hboots.1
  exact ⟨n, hn, hboots, hruns (hsettles.boots hrom (n + 1)) done hphase⟩

/-- The factory device, once its image runs. -/
def runningDevice : Device Bool :=
  ((factoryDevice.find maskRom).verify maskRom (fun b => b) .image0).jump .image0

theorem runningDevice_run :
    Relation.ReflTransGen (Step maskRom fun b => b) factoryDevice runningDevice :=
  ((Relation.ReflTransGen.single (.find rfl)).tail (.verify rfl)).tail (.jump rfl)

/-- An image that does not validate is rolled back. -/
theorem update_or_rollback_factory :
    (∀ done, (runningDevice.updated maskRom false).phase = .app done →
        (runningDevice.updated maskRom false).running = .image0) ∧
      ∃ n, n < 2 ∧ (Nat.iterate (Device.boot maskRom fun b => b) (n + 1)
          (runningDevice.updated maskRom false)).Boots (fun b => b) ∧
        (Nat.iterate (Device.boot maskRom fun b => b) (n + 1)
          (runningDevice.updated maskRom false)).running = .image0 :=
  update_or_rollback maskRom_sets ⟨fun _ => rfl, rfl, rfl⟩ runningDevice_run rfl false .refl

end Update

end Gd32.Boot
