import Gd32Firmware.Boot.Selection
import Gd32Firmware.Ota.Commit

/-!
# The update and the loader together

The loader's model has a download that changes the image that is not running, and three flag
writes. Here these are what `tkl_ota.c` does: a board has a flash, whose two slots hold the
images, the session of the update, and the statuses that the loader reads. The application calls
the three entry points; power may be lost between two calls and in the middle of one, and then the
bytes that the call was about to change may have any value.

As long as the packets fit (`Fits`), every step of a board is a run of the loader's model, since
the flash calls of the session lie in the slot of the other image (`Confined`), so that nothing
the update does keeps the device from starting.
-/

namespace Gd32.Ota

open NorFlash Boot Function Option List

/-! ### What a call of the driver reaches -/

/-- The driver goes from `d` to `d'` by calls of the ROM. -/
def Calls (rom : Rom) : Dev → Dev → Prop :=
  Relation.ReflTransGen fun d d' => ∃ p, (rom.issue p d).2 = d'

/-- No call that has been issued from `d` to `d'` reaches the byte. -/
def Unreached (d d' : Dev) (x : ℕ) : Prop :=
  ∀ p ∈ d'.log.drop d.log.length, x < p.addr ∨ p.addr + p.size ≤ x

section Calls

variable {rom : Rom} {d d' : Dev} {lo hi x : ℕ}

theorem calls_rawFlashErase (offset len : ℕ) (d : Dev) :
    Calls rom d (rawFlashErase rom offset len d).2 := by
  rw [rawFlashErase]
  split
  · exact .single ⟨_, rfl⟩
  · exact .refl

theorem calls_rawFlashWrite (offset : ℕ) (data : List UInt8) (d : Dev) :
    Calls rom d (rawFlashWrite rom offset data d).2 := by
  rw [rawFlashWrite]
  split
  · exact .single ⟨_, rfl⟩
  · exact .refl

theorem calls_rawFlashWriteFast (offset : ℕ) (data : List UInt8) (d : Dev) :
    Calls rom d (rawFlashWriteFast rom offset data d).2 := by
  rw [rawFlashWriteFast]
  split
  swap
  · exact .refl
  split
  · exact calls_rawFlashWrite _ _ d
  have hhead : Calls rom d (fastWriteHead rom offset data d).2 := by
    rw [fastWriteHead]
    split
    · exact calls_rawFlashWrite _ _ d
    · exact .refl
  dsimp only
  split
  · exact hhead
  have hmiddle : ∀ e, Calls rom e (fastWriteMiddle rom offset data e).2 := fun e => .single ⟨_, rfl⟩
  refine (hhead.trans (hmiddle _)).trans ?_
  rw [fastWriteTail]
  split
  · exact calls_rawFlashWrite _ _ _
  · exact .refl

theorem calls_eraseAhead (limit : ℕ) (rest : List UInt8) (p : UgProc) (d : Dev) :
    Calls rom d (eraseAhead rom limit rest p d).dev := by
  fun_induction eraseAhead rom limit rest p d with
  | case1 p d hlt herr => exact calls_rawFlashErase _ _ d
  | case2 p d hlt hok ih => exact (calls_rawFlashErase _ _ d).trans ih
  | case3 p d hge => exact .refl

theorem calls_writeBlocks (rest : List UInt8) (p : UgProc) (d : Dev) :
    Calls rom d (writeBlocks rom rest p d).dev := by
  fun_induction writeBlocks rom rest p d with
  | case1 rest p d hlen herr => exact calls_rawFlashWriteFast _ _ d
  | case2 rest p d hlen hok ih => exact (calls_rawFlashWriteFast _ _ d).trans ih
  | case3 rest p d hlen => exact .refl

theorem calls_writeLast (totalLen : ℕ) (o : LoopOut) :
    Calls rom o.dev (writeLast rom totalLen o).dev := by
  rw [writeLast]
  split
  · split <;> exact calls_rawFlashWriteFast _ _ _
  · exact .refl

theorem calls_processPacket (pk : Pack) (p : UgProc) (d : Dev) :
    Calls rom d (processPacket rom pk p d).dev := by
  have herase : Calls rom d (eraseAhead rom (u32 (p.recvDataCnt + p.startAddr + pk.len)) pk.data p
    d).dev := calls_eraseAhead ..
  rw [processPacket]
  dsimp only
  split
  swap
  · exact herase
  split
  · exact (herase.trans (calls_writeBlocks ..)).trans (calls_writeLast ..)
  · exact herase.trans (calls_writeBlocks ..)

theorem calls_afterCall (s : Session) (c : ProcessCall) :
    Calls rom s.dev (afterCall rom s c).dev := by
  obtain ⟨pack, remainLen⟩ := c
  rcases pack with _ | pk
  · exact .refl
  rcases remainLen with _ | r
  · exact .refl
  rcases hp : s.ugProc with _ | p
  · simp only [afterCall, tklOtaDataProcess, hp]
    exact .refl
  rw [afterCall]
  by_cases hearly : Early pk p
  · rw [tklOtaDataProcess_of_early hp hearly]
    exact .refl
  · rw [tklOtaDataProcess_of_not_early hp hearly rfl]
    exact calls_processPacket pk p s.dev

/-- The bytes that no call reaches keep their values. -/
theorem Calls.flash (h : Calls rom d d') :
    d.log <+: d'.log ∧ (Unreached d d' x → d'.flash x = d.flash x) := by
  induction h with
  | refl => exact ⟨prefix_refl _, fun _ => rfl⟩
  | @tail e _ _ hstep ih =>
    obtain ⟨⟨ps, hps⟩, hkeep⟩ := ih
    obtain ⟨p, rfl⟩ := hstep
    have hlog : (rom.issue p e).2.log = d.log ++ (ps ++ [p]) := by
      rw [Rom.issue, ← hps, List.append_assoc]
    rw [Unreached, hlog, drop_left]
    rw [Unreached, ← hps, drop_left] at hkeep
    refine ⟨prefix_append .., fun hx => ?_⟩
    rw [issue_flash_of_not_mem rom (hx p (by simp)),
      hkeep fun q hq => hx q (mem_append_left _ hq)]

end Calls

/-! ### The board -/

/-- The slot of an image. -/
def imageSlot : Image → ℕ × ℕ
  | .image0 => (reImg0Offset, reImg1Offset - reImg0Offset)
  | .image1 => (reImg1Offset, reImg1End - reImg1Offset)

/-- The index of an image. -/
def imageIdx : Image → ℕ
  | .image0 => 0
  | .image1 => 1

/-- The image of an index. -/
def imageOf (idx : ℕ) : Image := if idx = 0 then .image0 else .image1

/-- The session of `tkl_ota.c`, the flash, and what the loader keeps: the statuses, the image that
runs and how far the processor has come. -/
structure Board where
  ugProc : Option UgProc
  dev : Dev
  status : Image → Option UInt8
  running : Image
  phase : Phase

/-- What the loader sees of a board: the content of an image is that of its slot. -/
def Board.device (b : Board) : Device (List UInt8) where
  status := b.status
  content i := read b.dev.flash (imageSlot i).1 (imageSlot i).2
  running := b.running
  phase := b.phase

/-- What the application sees; an absent status reads as one without flags. -/
def Board.session (b : Board) : Session :=
  ⟨b.ugProc, b.dev, ⟨(b.status .image0).getD 0, (b.status .image1).getD 0⟩, []⟩

variable (rom : Rom) (srom : StatusRom) (validates : List UInt8 → Bool)

/-- `rom_sys_set_img_flag` as the application calls it; it does not fail. -/
def bootRom : BootRom where
  setImgFlag f c :=
    (0, if c.idx = 0 then { f with img0 := srom.setImgFlag (some f.img0) c.mask c.flag }
      else { f with img1 := srom.setImgFlag (some f.img1) c.mask c.flag })

/-- The flag writes of a call, as the loader sees them. -/
def writeFlags (cs : List FlagCall) (status : Image → Option UInt8) : Image → Option UInt8 :=
  cs.foldl (fun status c => update status (imageOf c.idx)
    (some (srom.setImgFlag (status (imageOf c.idx)) c.mask c.flag))) status

/-- **What the application may call**: a start, for which the ROM reports the image that the
loader has recorded, a packet that fits, and the end. -/
def CallOk (b : Board) : OtaCall → Prop
  | .start _ _ st => st = some (imageIdx b.running)
  | .process c => Fits b.session c
  | .endNotify _ => True

/-- A call ends with `tkl_system_reset`. -/
def OtaCall.resets : OtaCall → Bool
  | .endNotify reset => reset
  | _ => false

/-- **One step of the board.** -/
inductive BoardStep : Board → Board → Prop where
  /-- A step of the loader or the loss of power; there is no session after it. -/
  | loader {b d} (h : LoaderStep srom validates b.device d) :
    BoardStep b ⟨none, b.dev, d.status, d.running, d.phase⟩
  | call {b c r s} (happ : b.phase = .app 0) (hc : CallOk b c)
    (h : otaStep rom (bootRom srom) b.session c = some (r, s)) :
    BoardStep b ⟨s.ugProc, s.dev, writeFlags srom s.flagLog b.status, b.running,
      if c.resets then .off else .app 0⟩
  /-- Power is lost in a call: some of its flag writes have been made, and the bytes that its
  flash calls reach may have any value. -/
  | cut {b c r s} (happ : b.phase = .app 0) (hc : CallOk b c)
    (h : otaStep rom (bootRom srom) b.session c = some (r, s)) (n : ℕ) (f : Flash)
    (hf : ∀ x, Unreached b.dev s.dev x → f x = b.dev.flash x) :
    BoardStep b ⟨none, ⟨f, s.dev.log⟩, writeFlags srom (s.flagLog.take n) b.status,
      b.running, .off⟩

/-! ### The board refines the loader's model -/

/-- **The session is for the image that does not run**, and it is there only while the
application runs. -/
def Coherent (b : Board) : Prop :=
  ∀ p, b.ugProc = some p → (∃ done, b.phase = .app done) ∧
    p.runingImageIdx = imageIdx b.running ∧ Confined (imageSlot b.running.other) p

section Refines

variable {rom srom validates} {b b' : Board} {c : OtaCall} {r : OperateRet} {s : Session}

theorem inactiveSlot_imageIdx (i : Image) : inactiveSlot (imageIdx i) = some (imageSlot i.other) := by
  cases i <;> rfl

theorem slotOk_imageSlot (i : Image) : SlotOk (imageSlot i) := by
  have hslot := inactiveSlot_imageIdx i.other
  rw [Image.other_other] at hslot
  exact slotOk_of_inactiveSlot hslot

/-- **What a call does**: its flash calls lie in the slot of the other image, its flag writes are
none or those of the end, and the session it leaves is one for that image. -/
structure Effect (rom : Rom) (b : Board) (c : OtaCall) (s : Session) : Prop where
  calls : Calls rom b.dev s.dev
  issues : Issues (imageSlot b.running.other).1
    ((imageSlot b.running.other).1 + (imageSlot b.running.other).2) b.dev s.dev
  flags : s.flagLog = [] ∨ s.flagLog = endFlagCalls (imageIdx b.running)
  reset : c.resets = true → s.ugProc = none
  session : ∀ p, s.ugProc = some p → p.runingImageIdx = imageIdx b.running ∧
    Confined (imageSlot b.running.other) p

/-- A call that leaves the flash and the flags alone. -/
theorem Effect.of_dev_eq (hdev : s.dev = b.dev) (hlog : s.flagLog = []) (hc : c.resets = false)
    (hs : ∀ p, s.ugProc = some p → p.runingImageIdx = imageIdx b.running ∧
      Confined (imageSlot b.running.other) p) : Effect rom b c s where
  calls := hdev ▸ .refl
  issues := hdev ▸ Issues.refl _ _ _
  flags := .inl hlog
  reset hr := by simp [hc] at hr
  session := hs

/-- Without a session a packet is refused. -/
theorem afterCall_of_none (hs : s.ugProc = none) (c : ProcessCall) : afterCall rom s c = s := by
  unfold afterCall tklOtaDataProcess
  split
  next hp =>
    rw [hs] at hp
    cases hp
  next => rfl

theorem Coherent.effect (hb : Coherent b) (hc : CallOk b c)
    (h : otaStep rom (bootRom srom) b.session c = some (r, s)) : Effect rom b c s := by
  have hsession : ∀ p, b.ugProc = some p → p.runingImageIdx = imageIdx b.running ∧
      Confined (imageSlot b.running.other) p := fun p hp => (hb p hp).2
  cases c with
  | start n m st =>
    obtain rfl := hc
    obtain rfl := congrArg Prod.snd (Option.some.inj h)
    have hslot := inactiveSlot_imageIdx b.running
    unfold tklOtaStartNotify
    split
    · exact .of_dev_eq rfl rfl rfl hsession
    split
    · exact .of_dev_eq rfl rfl rfl hsession
    simp only [hslot]
    refine .of_dev_eq rfl rfl rfl ?_
    rintro p ⟨⟩
    exact ⟨rfl, confined_fresh (slotOk_imageSlot _) _⟩
  | process c =>
    obtain rfl : afterCall rom b.session c = s := congrArg Prod.snd (Option.some.inj h)
    rcases hp : b.session.ugProc with _ | p
    · rw [afterCall_of_none hp]
      exact .of_dev_eq rfl rfl rfl hsession
    · have hview := view_process rom c b.session
      obtain ⟨hidx, hconf⟩ := hsession p hp
      obtain ⟨hissues, p', hp', hconf'⟩ := hconf.afterCall rom (slotOk_imageSlot _) hp hc
      refine ⟨calls_afterCall b.session c, hissues, .inl (congrArg CommitView.flagLog hview),
        Bool.noConfusion, fun q hq => ?_⟩
      obtain rfl := Option.some.inj (hp'.symm.trans hq)
      have hsame := congrArg CommitView.session hview
      simp only [Session.view, hp, hp', map_some] at hsame
      exact ⟨(Option.some.inj hsame).trans hidx, hconf'⟩
  | endNotify reset =>
    obtain ⟨p, hp, heq⟩ := Option.map_eq_some_iff.mp h
    obtain ⟨hidx, hconf⟩ := hsession p hp
    have hok : (setFlags (bootRom srom) b.session.flags (endFlagCalls p.runingImageIdx)).1.all
        (· == 0) = true := rfl
    rw [if_pos hok] at heq
    obtain rfl := congrArg Prod.snd heq
    rw [hidx]
    cases reset with
    | true => exact ⟨.refl, Issues.refl _ _ _, .inr rfl, fun _ => rfl, by rintro q ⟨⟩⟩
    | false => exact ⟨.refl, Issues.refl _ _ _, .inr rfl, Bool.noConfusion, hsession⟩

/-- The flag writes of the end are the loader's, however many of them have been made. -/
theorem run_writeFlags {d : Device (List UInt8)} (happ : d.phase = .app 0) {cs : List FlagCall}
    (hcs : cs = [] ∨ cs = endFlagCalls (imageIdx d.running)) (n : ℕ) :
    ∃ done, Relation.ReflTransGen (Step srom validates) d
      ⟨writeFlags srom (cs.take n) d.status, d.content, d.running, .app done⟩ ∧
        (cs.length ≤ n → done = 0) := by
  obtain ⟨status, content, running, phase⟩ := d
  obtain rfl : phase = .app 0 := happ
  rcases hcs with rfl | rfl
  · rw [take_nil]
    exact ⟨0, .refl, fun _ => rfl⟩
  have hstep : ∀ (d : Device (List UInt8)) (done : Fin 3), d.phase = .app done →
      Step srom validates d (d.endNotify srom done) := fun _ _ => .endNotify
  have h0 := Relation.ReflTransGen.single (hstep ⟨status, content, running, .app 0⟩ 0 rfl)
  have h1 := h0.tail (hstep _ 1 rfl)
  have h2 := h1.tail (hstep _ 2 rfl)
  rcases n with _ | _ | _ | n
  · exact ⟨0, .refl, fun _ => rfl⟩
  · refine ⟨1, ?_, fun hc => absurd hc (by simp [endFlagCalls])⟩
    cases running <;> exact h0
  · refine ⟨2, ?_, fun hc => absurd hc (by simp [endFlagCalls])⟩
    cases running <;> exact h1
  · have hall : (endFlagCalls (imageIdx running)).take (n + 1 + 1 + 1) =
        endFlagCalls (imageIdx running) := take_of_length_le (by simp [endFlagCalls])
    refine ⟨0, ?_, fun _ => rfl⟩
    rw [hall]
    cases running <;> exact h2

/-- What a call leaves in the slots: only the other image has changed. -/
theorem content_of_flash {f : Flash} (hf : ∀ x, x < (imageSlot b.running.other).1 ∨
      (imageSlot b.running.other).1 + (imageSlot b.running.other).2 ≤ x → f x = b.dev.flash x) :
    (fun i => read f (imageSlot i).1 (imageSlot i).2) = update b.device.content b.running.other
      (read f (imageSlot b.running.other).1 (imageSlot b.running.other).2) := by
  funext i
  by_cases hi : i = b.running.other
  · subst hi
    rw [update_self]
  · have hrun : i = b.running := by rw [Image.eq_other hi, Image.other_other]
    rw [update_of_ne hi, hrun]
    refine read_congr fun x hlo hhi => hf x ?_
    cases hr : b.running <;> rw [hr] at hlo hhi <;>
      simp only [imageSlot, Image.other, reImg0Offset, reImg1Offset, reImg1End] at * <;> omega

/-- **A call is a run of the loader's model**: a download, and as many of the flag writes as have
been made. -/
theorem Effect.run (h : Effect rom b c s) (happ : b.phase = .app 0) {f : Flash}
    (hf : ∀ x, Unreached b.dev s.dev x → f x = b.dev.flash x) (n : ℕ) :
    ∃ done, Relation.ReflTransGen (Step srom validates) b.device
      ⟨writeFlags srom (s.flagLog.take n) b.status,
        fun i => read f (imageSlot i).1 (imageSlot i).2, b.running, .app done⟩ ∧
        (s.flagLog.length ≤ n → done = 0) := by
  obtain ⟨ps, hlog, hwithin⟩ := h.issues
  have hcontent := content_of_flash fun x hx => hf x fun p hp => by
    rw [hlog, drop_left] at hp
    exact hx.imp (fun hlt => lt_of_lt_of_le hlt (hwithin p hp).1)
      fun hge => (hwithin p hp).2.trans hge
  have hdownload : Step srom validates b.device _ := .download happ
    (read f (imageSlot b.running.other).1 (imageSlot b.running.other).2)
  obtain ⟨done, hrun, hdone⟩ := @run_writeFlags srom validates
    ⟨b.status, _, b.running, b.phase⟩ happ _ h.flags n
  rw [hcontent]
  exact ⟨done, .head hdownload hrun, hdone⟩

/-- The loader does not write into the slots. -/
theorem content_of_loaderStep {d d' : Device (List UInt8)} (h : LoaderStep srom validates d d') :
    d'.content = d.content := by
  rcases h with ⟨hstep, happ⟩ | rfl
  · cases hstep with
    | find _ =>
      unfold Device.find bootImageFind
      split
      all_goals
        next heq =>
        have hcontent := congrArg (fun q => q.1.content) heq
        rw [← hcontent]
        split <;> rfl
    | verify _ =>
      rw [Device.verify]
      split <;> rfl
    | jump _ => rfl
    | download hphase c => exact absurd hphase (happ _)
    | endNotify hphase => exact absurd hphase (happ _)
    | powerLoss => rfl
  · rfl

/-- **A step of the board is a run of the loader's model.** -/
theorem Coherent.step (hb : Coherent b) (hstep : BoardStep rom srom validates b b') :
    Relation.ReflTransGen (Step srom validates) b.device b'.device ∧ Coherent b' := by
  cases hstep with
  | @loader d h =>
    refine ⟨.single ?_, by rintro p ⟨⟩⟩
    have hdevice : Board.device ⟨none, b.dev, d.status, d.running, d.phase⟩ = d := by
      rw [Board.device]
      exact congrArg (Device.mk d.status · d.running d.phase) (content_of_loaderStep h).symm
    rw [hdevice]
    rcases h with ⟨hstep, -⟩ | rfl
    · exact hstep
    · exact .powerLoss _
  | @call c r s happ hc h =>
    have heffect := hb.effect hc h
    obtain ⟨done, hrun, hdone⟩ := heffect.run happ (fun _ => heffect.calls.flash.2)
      s.flagLog.length
    rw [take_length, hdone le_rfl] at hrun
    cases hr : c.resets with
    | true => exact ⟨hrun.tail (.powerLoss _), fun p hp => by simp [heffect.reset hr] at hp⟩
    | false => exact ⟨hrun, fun p hp => ⟨⟨0, rfl⟩, heffect.session p hp⟩⟩
  | cut happ hc h n f hf =>
    obtain ⟨done, hrun, -⟩ := (hb.effect hc h).run happ hf n
    exact ⟨hrun.tail (.powerLoss _), by rintro p ⟨⟩⟩

theorem Coherent.run (hb : Coherent b)
    (hrun : Relation.ReflTransGen (BoardStep rom srom validates) b b') :
    Relation.ReflTransGen (Step srom validates) b.device b'.device ∧ Coherent b' := by
  induction hrun with
  | refl => exact ⟨.refl, hb⟩
  | tail _ hstep ih =>
    obtain ⟨hdevice, hb'⟩ := ih.2.step hstep
    exact ⟨ih.1.trans hdevice, hb'⟩

end Refines

/-- **No download that fits bricks the board.** From the factory state, whatever is called, however
the flash answers and whenever power is lost: the board does what the loader's model does, so the
loader never gives up, what runs is an image whose slot validates, and at most two boots reach
one. -/
theorem board_refines {rom : Rom} {srom : StatusRom} {validates : List UInt8 → Bool}
    (hrom : srom.Sets) {b b' : Board} (hb : Factory validates b.device) (hnone : b.ugProc = none)
    (hrun : Relation.ReflTransGen (BoardStep rom srom validates) b b') :
    Relation.ReflTransGen (Step srom validates) b.device b'.device ∧
      (∀ ret, b'.phase ≠ .noImageBoot ret) ∧
      (∀ done, b'.phase = .app done → validates (b'.device.content b'.running)) ∧
      ∃ n, n < 2 ∧
        (Nat.iterate (Device.boot srom validates) (n + 1) b'.device).Boots validates := by
  have hcoherent : Coherent b := fun p hp => by simp [hnone] at hp
  obtain ⟨hdevice, -⟩ := hcoherent.run hrun
  have hinv := hb.inv.run hrom hdevice
  have hp := hinv.phase
  refine ⟨hdevice, fun ret hphase => ?_, fun done hphase => ?_, hinv.boots hrom⟩
  · rw [show b'.device.phase = _ from hphase] at hp
    exact hp
  · rw [show b'.device.phase = _ from hphase] at hp
    obtain ⟨st, hproven, -⟩ := hp
    exact hproven.2.2.2

/-- A board from the factory. -/
def factoryBoard : Board := ⟨none, ⟨fun _ => 0, []⟩, fun _ => none, .image0, .off⟩

/-- The first boot has chosen the image 0. -/
theorem board_refines_factory : ∃ b' : Board, b'.phase = .found .image0 ∧
    Relation.ReflTransGen (Step maskRom fun _ => true) factoryBoard.device b'.device ∧
      (∀ ret, b'.phase ≠ .noImageBoot ret) ∧
      (∀ done, b'.phase = .app done → (fun _ => true) (b'.device.content b'.running)) ∧
      ∃ n, n < 2 ∧ (Nat.iterate (Device.boot maskRom fun _ => true) (n + 1) b'.device).Boots
        fun _ => true :=
  ⟨_, rfl, @board_refines okRom maskRom (fun _ => true) maskRom_sets factoryBoard _
    ⟨fun _ => rfl, rfl, rfl⟩ rfl (.single (.loader (.inl ⟨.find rfl, by rintro _ ⟨⟩⟩)))⟩

end Gd32.Ota
