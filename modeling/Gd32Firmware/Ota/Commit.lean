import Gd32Firmware.Ota.Containment

/-!
# What marks the new image as bootable

`tkl_ota_end_notify` rewrites the flags of both images. It looks at nothing but the index of
the running image, so the flags a run leaves are decided by which sessions were open when it
was called: the size announced, the packets, what the calls returned and how much of the
image arrived play no part. `CommitView` is that part of the state, and a run of the
three entry points acts on it as `viewStep` says, which does not read the packets at
all.
-/

namespace Gd32.Ota

open NorFlash Option

/-! ### Runs of the three entry points -/

/-- One call of an entry point. -/
inductive OtaCall
  /-- `tkl_ota_start_notify`, with the answers of the allocator and of the ROM. -/
  | start (imageSize : ℕ) (mallocOk : Bool) (status : Option ℕ)
  /-- `tkl_ota_data_process`. -/
  | process (c : ProcessCall)
  /-- `tkl_ota_end_notify`. -/
  | endNotify (reset : Bool)

section Runs

variable (rom : Rom) (boot : BootRom)

/-- One call; `none` is a null dereference. -/
def otaStep (s : Session) : OtaCall → Option (OperateRet × Session)
  | .start n m st => some (tklOtaStartNotify n m st s)
  | .process c => some ((tklOtaDataProcess rom c.pack c.remainLen s).1, afterCall rom s c)
  | .endNotify reset => tklOtaEndNotify boot reset s

/-- The results of the calls of a run and the session it leaves; `none` when a call
dereferences the null pointer. -/
def runOta (s : Session) : List OtaCall → Option (List OperateRet × Session)
  | [] => some ([], s)
  | c :: cs =>
    (otaStep rom boot s c).bind fun r => (runOta r.2 cs).map fun q => (r.1 :: q.1, q.2)

end Runs

/-! ### The part of the state that decides the flags -/

/-- The index of the running image as the open session has it, and the image flags. -/
structure CommitView where
  /-- The index recorded by the open session. -/
  session : Option ℕ
  flags : ImgFlags
  flagLog : List FlagCall

/-- The commit view of a session. -/
def Session.view (s : Session) : CommitView :=
  ⟨s.ugProc.map UgProc.runingImageIdx, s.flags, s.flagLog⟩

/-- The index a start that clears the session leaves in it: `0` unless the ROM reports one of
the two images. -/
def recordedIdx (status : Option ℕ) : ℕ :=
  match status with
  | some idx => if (inactiveSlot idx).isSome then idx else 0
  | none => 0

/-- What a call does to the commit view. A start only matters by clearing the session, which
it does unless it is refused for its size being zero or for want of memory; data does not
matter at all. -/
def viewStep (boot : BootRom) (v : CommitView) : OtaCall → Option CommitView
  | .start n m st =>
    some (if n = 0 ∨ (v.session = none ∧ m = false) then v
      else { v with session := some (recordedIdx st) })
  | .process _ => some v
  | .endNotify reset =>
    v.session.map fun idx =>
      let r := setFlags boot v.flags (endFlagCalls idx)
      { session := if r.1.all (· == 0) ∧ reset then none else some idx
        flags := r.2
        flagLog := v.flagLog ++ endFlagCalls idx }

/-- The commit view after a list of calls. -/
def viewRun (boot : BootRom) (v : CommitView) : List OtaCall → Option CommitView
  | [] => some v
  | c :: cs => (viewStep boot v c).bind fun w => viewRun boot w cs

section View

variable (rom : Rom) (boot : BootRom)

theorem view_start (n : ℕ) (m : Bool) (st : Option ℕ) (s : Session) :
    some (tklOtaStartNotify n m st s).2.view = viewStep boot s.view (.start n m st) := by
  have hnone : s.view.session = none ↔ s.ugProc = none := by simp [Session.view]
  rw [viewStep]
  unfold tklOtaStartNotify
  by_cases h0 : n = 0
  · rw [if_pos h0, if_pos (Or.inl h0)]
  rw [if_neg h0]
  by_cases h1 : s.ugProc = none ∧ m = false
  · rw [if_pos h1, if_pos (Or.inr ⟨hnone.mpr h1.1, h1.2⟩)]
  rw [if_neg h1, if_neg (by rw [hnone]; exact fun hc => hc.elim h0 h1)]
  rcases st with _ | idx
  · rfl
  · rcases hslot : inactiveSlot idx with _ | slot
    · simp [Session.view, recordedIdx, hslot, UgProc.zero]
    · simp [Session.view, recordedIdx, hslot, UgProc.fresh]

/-- The loops leave the index of the running image alone. -/
theorem eraseAhead_idx (limit : ℕ) (rest : List UInt8) (p : UgProc) (d : Dev) :
    (eraseAhead rom limit rest p d).proc.runingImageIdx = p.runingImageIdx := by
  induction hn : 2 * flashTotalSize - p.eraseStartAddr using Nat.strong_induction_on
    generalizing p d with
  | _ n ih =>
  rw [eraseAhead]
  split
  · split
    · rfl
    next h =>
      rw [ih _ (by rw [← hn]; exact eraseAhead_decreasing h) _ _ rfl]
  · rfl

theorem UgProc.advance_runingImageIdx (p : UgProc) (n : ℕ) :
    (p.advance n).runingImageIdx = p.runingImageIdx := rfl

theorem writeBlocks_idx (rest : List UInt8) (p : UgProc) (d : Dev) :
    (writeBlocks rom rest p d).proc.runingImageIdx = p.runingImageIdx := by
  induction hn : rest.length using Nat.strong_induction_on generalizing rest p d with
  | _ n ih =>
  rw [writeBlocks]
  split
  next hlen =>
    have hpos : 0 < imageWriteSize := by decide
    split
    · rfl
    · exact (ih _ (by rw [List.length_drop]; omega) _ (p.advance imageWriteSize) _ rfl).trans
        (UgProc.advance_runingImageIdx p _)
  next => rfl

theorem processPacket_idx (pk : Pack) (p : UgProc) (d : Dev) :
    (processPacket rom pk p d).proc.runingImageIdx = p.runingImageIdx := by
  have hlast : ∀ o, (writeLast rom pk.totalLen o).proc.runingImageIdx = o.proc.runingImageIdx := by
    intro o
    rw [writeLast]
    split
    · split <;> rfl
    · rfl
  rw [processPacket]
  dsimp only
  split
  · split
    · rw [hlast, writeBlocks_idx, eraseAhead_idx]
    · rw [writeBlocks_idx, eraseAhead_idx]
  · rw [eraseAhead_idx]

/-- **Data does not touch the commit view.** -/
theorem view_process (c : ProcessCall) (s : Session) : (afterCall rom s c).view = s.view := by
  obtain ⟨pack, remainLen⟩ := c
  rcases pack with _ | pk
  · rfl
  rcases remainLen with _ | r
  · rfl
  rcases hp : s.ugProc with _ | p
  · simp only [afterCall, tklOtaDataProcess, hp]
  by_cases hearly : Early pk p
  · rw [afterCall, tklOtaDataProcess_of_early hp hearly]
  · rw [afterCall, tklOtaDataProcess_of_not_early hp hearly rfl]
    simp only [Session.view, hp, map_some, processPacket_idx]

theorem view_endNotify (reset : Bool) (s : Session) :
    (tklOtaEndNotify boot reset s).map (fun r => r.2.view) =
      viewStep boot s.view (.endNotify reset) := by
  rcases hp : s.ugProc with _ | p
  · simp [tklOtaEndNotify, viewStep, Session.view, hp]
  · simp only [tklOtaEndNotify, viewStep, Session.view, hp, map_some, Option.some.injEq]
    by_cases hok : (setFlags boot s.flags (endFlagCalls p.runingImageIdx)).1.all (· == 0) = true
    · cases reset
      · simp [hok]
      · simp [hok]
    · simp [hok]

/-- **One call acts on the commit view as `viewStep` says.** -/
theorem view_otaStep (s : Session) (c : OtaCall) :
    (otaStep rom boot s c).map (fun r => r.2.view) = viewStep boot s.view c := by
  cases c with
  | start n m st => exact view_start boot n m st s
  | process c =>
    simp only [otaStep, viewStep, map_some, view_process]
  | endNotify reset => exact view_endNotify boot reset s

/-- **A run acts on the commit view as `viewRun` says.** -/
theorem view_runOta (s : Session) (cs : List OtaCall) :
    (runOta rom boot s cs).map (fun r => r.2.view) = viewRun boot s.view cs := by
  induction cs generalizing s with
  | nil => rfl
  | cons c cs ih =>
    have hstep := view_otaStep rom boot s c
    rw [runOta, viewRun, ← hstep]
    rcases hr : otaStep rom boot s c with _ | r
    · rfl
    · simp only [bind_some, map_some, ← ih r.2, map_map]
      rfl

end View

/-! ### The commit -/

/-- A call that is not data. -/
def OtaCall.isControl : OtaCall → Bool
  | .process _ => false
  | _ => true

/-- The packets of a run can be left out of it without a change to the commit view. -/
theorem viewRun_filter (boot : BootRom) (v : CommitView) (cs : List OtaCall) :
    viewRun boot v (cs.filter OtaCall.isControl) = viewRun boot v cs := by
  induction cs generalizing v with
  | nil => rfl
  | cons c cs ih =>
    cases c with
    | process c =>
      rw [List.filter_cons_of_neg (by simp [OtaCall.isControl]), ih]
      rfl
    | start n m st =>
      rw [List.filter_cons_of_pos (by simp [OtaCall.isControl]), viewRun, viewRun]
      simp only [ih]
    | endNotify reset =>
      rw [List.filter_cons_of_pos (by simp [OtaCall.isControl]), viewRun, viewRun]
      simp only [ih]

/-- **There is no commit gate.** After any run of the three entry points, from any state and
with any answers of the flash, the allocator and the ROM:
* the flags, the flag writes and the running index on record are the ones left by the run
  without its packets, and the calls other than `tkl_ota_end_notify` write no flag;
* a `tkl_ota_end_notify` on an open session issues the three flag writes for the index on
  record, and returns `OPRT_OK` exactly when all three of them succeed. -/
theorem endNotify_commits (rom : Rom) (boot : BootRom) (s₀ : Session) (cs : List OtaCall)
    (rets : List OperateRet) (s : Session) (hrun : runOta rom boot s₀ cs = some (rets, s)) :
    viewRun boot s₀.view (cs.filter OtaCall.isControl) = some s.view ∧
    (∀ c r, (∀ reset, c ≠ .endNotify reset) → otaStep rom boot s c = some r →
      r.2.flags = s.flags ∧ r.2.flagLog = s.flagLog) ∧
    ∀ p reset, s.ugProc = some p →
      ∃ r s', otaStep rom boot s (.endNotify reset) = some (r, s') ∧
        s'.flags = (setFlags boot s.flags (endFlagCalls p.runingImageIdx)).2 ∧
        s'.flagLog = s.flagLog ++ endFlagCalls p.runingImageIdx ∧
        (r = .ok ↔ ∀ code ∈ (setFlags boot s.flags (endFlagCalls p.runingImageIdx)).1, code = 0) ∧
        (r ≠ .ok → r = .otaEndInformFailed) := by
  refine ⟨?_, fun c r hc hr => ?_, fun p reset hp => ?_⟩
  · rw [viewRun_filter, ← view_runOta rom boot s₀ cs, hrun]
    rfl
  · cases c with
    | endNotify reset => exact absurd rfl (hc reset)
    | start n m st =>
      cases hr
      unfold tklOtaStartNotify
      split
      · exact ⟨rfl, rfl⟩
      split
      · exact ⟨rfl, rfl⟩
      split
      · exact ⟨rfl, rfl⟩
      · split <;> exact ⟨rfl, rfl⟩
    | process c =>
      cases hr
      have hview := view_process rom c s
      exact ⟨congrArg CommitView.flags hview, congrArg CommitView.flagLog hview⟩
  · simp only [otaStep, tklOtaEndNotify, hp, map_some, Option.some.injEq]
    by_cases hok : (setFlags boot s.flags (endFlagCalls p.runingImageIdx)).1.all (· == 0) = true
    · rw [if_pos hok]
      refine ⟨_, _, rfl, ?_, ?_, ?_, fun h => absurd rfl h⟩
      · cases reset <;> rfl
      · cases reset <;> rfl
      · simpa using hok
    · rw [if_neg hok]
      refine ⟨_, _, rfl, rfl, rfl, ?_, fun _ => rfl⟩
      simpa using hok

/-- `rom_sys_set_img_flag` as its name and its arguments have it: the bits of the mask are
replaced in the flags of one image. -/
def maskBootRom : BootRom where
  setImgFlag f c :=
    let put (old : UInt8) : UInt8 := (old &&& ~~~c.mask) ||| c.flag
    (0, if c.idx = 0 then { f with img0 := put f.img0 } else { f with img1 := put f.img1 })

/-- A start and a block, and then the end: the session of the start is the one on record. -/
theorem endNotify_commits_block :
    ∃ rets s, runOta okRom maskBootRom idleSession
        [.start 1000 true (some 0), .process ⟨some blockPack, some 0⟩] = some (rets, s) ∧
      viewRun maskBootRom idleSession.view [.start 1000 true (some 0)] = some s.view :=
  ⟨_, _, rfl, (endNotify_commits okRom maskBootRom idleSession
    [.start 1000 true (some 0), .process ⟨some blockPack, some 0⟩] _ _ rfl).1⟩

/-! ### The gate that is not there -/

/-- The size announced by the most recent start, and whether that start and every packet
since returned `OPRT_OK`. -/
def progressStep (acc : Option (ℕ × Bool)) (c : OtaCall × OperateRet) : Option (ℕ × Bool) :=
  match c.1 with
  | .start n _ _ => some (n, c.2 == .ok)
  | .process _ => acc.map fun q => (q.1, q.2 && c.2 == .ok)
  | .endNotify _ => acc

/-- The image announced by the most recent start has been written in full and without an
error. -/
def Complete (cs : List OtaCall) (rets : List OperateRet) (s : Session) : Prop :=
  ∃ n, (cs.zip rets).foldl progressStep none = some (n, true) ∧
    s.ugProc.map UgProc.recvDataCnt = some n

/-- A gate in front of the commit: `tkl_ota_end_notify` fails and leaves the flags alone
unless the image is complete. -/
def CommitGate (rom : Rom) (boot : BootRom) (s₀ : Session) : Prop :=
  ∀ cs rets s reset, runOta rom boot s₀ cs = some (rets, s) → ¬Complete cs rets s →
    ∃ r s', tklOtaEndNotify boot reset s = some (r, s') ∧ r ≠ .ok ∧ s'.flags = s.flags

/-- **The commit is not gated**: a start for 1000 bytes with image 0 running, then at once the
end, and image 1 is the newer one with nothing written to it. -/
theorem not_commitGate : ¬CommitGate okRom maskBootRom idleSession := by
  intro hgate
  obtain ⟨r, s', hend, -, hflags⟩ := hgate [.start 1000 true (some 0)] _ _ false rfl (by
    rintro ⟨n, hn, hcnt⟩
    cases hn
    exact absurd hcnt (by decide))
  cases hend
  exact absurd hflags (by decide)

end Gd32.Ota
