import Gd32Firmware.Ble.DfuSrv
import Gd32Firmware.Lib.Blocks

/-!
# What a firmware update over Bluetooth commits

The peer sends a digest of the image. `app_dfu_srv.c` compares it with the one of the bytes it has
read back, frees the buffer, and has the flags of the images set when the link is gone. It keeps
the pointer to the buffer, and everything that goes wrong from then on frees it again; and it does
not look at what `raw_flash_read` returns.

`dfu_committed` says in which runs only an image is committed that has been compared, and
each buffer freed once. `not_committed` has a run in which the timer expires after the
comparison, and one in which a block cannot be read back.
-/

namespace Gd32.Dfu

open NorFlash List

/-! ### What is to be so -/

/-- The digest has been compared, and the buffer freed. -/
def DfuState.verified : DfuState → Bool
  | .verificationPass => true
  | .waitLastCmd => true
  | .disconnecting => true
  | _ => false

/-- The block that the server has yet to free. -/
def DfuSrv.held (s : DfuSrv) : List ℕ :=
  if s.env.state.verified = true then [] else s.env.pTemBuf.toList

/-- **Only an image that has been compared is committed**: as many bytes as announced were
accepted, and the peer sent the digest of what the bank holds. The flags stay as they are
otherwise, and each block is freed once. -/
structure Committed (P : Platform) (flags : Ota.ImgFlags) (s : DfuSrv) : Prop where
  commits : ∀ c ∈ s.commits, c.accepted = c.size ∧ c.digest = some (P.sha256 c.image)
  flags : s.commits = [] → s.flags = flags
  blocks : Blocks.Accounted s.allocs s.held s.freed

/-- Both flag writes of `app_dfu_srv_set_flag` succeed. -/
def DfuSrv.FlagsSet (P : Platform) (s : DfuSrv) : Prop :=
  let r := P.boot.setImgFlag s.flags (flagCalls s.env.workingBank).1
  r.1 = 0 ∧ (P.boot.setImgFlag r.2 (flagCalls s.env.workingBank).2).1 = 0

instance (P : Platform) (s : DfuSrv) : Decidable (s.FlagsSet P) :=
  inferInstanceAs (Decidable (_ ∧ _))

/-- A block that is accepted can be read back, the count of the bytes does not wrap around, and
the sector that is erased next holds none of them. -/
def DfuSrv.KeepsBytes (s : DfuSrv) (a : Answers) : Prop :=
  a.readFailed = none ∧ s.env.curOffset + s.env.tempBuf.length < 2 ^ 32 ∧
    (s.env.eraseStartAddr + flashWriteSize ≤ s.env.newImgAddr ∨
      s.env.newImgAddr + (s.env.curOffset + s.env.tempBuf.length) ≤ s.env.eraseStartAddr)

instance (s : DfuSrv) (a : Answers) : Decidable (s.KeepsBytes a) :=
  inferInstanceAs (Decidable (_ ∧ _ ∧ _))

/-- Nothing goes wrong from the comparison on: the digests are equal, only the command to reboot and
the end of the link follow, and the flags can be set. The blocks before it are read back. -/
def Event.Committed (P : Platform) (s : DfuSrv) : Event → Prop
  | .controlWrite a _ data =>
    (s.env.state.verified = true → s.env.state = .verificationPass ∧ data = [4]) ∧
    (s.env.state = .dfuFinished → data.length = 33 → data.head? = some 3 →
      P.sha256 s.env.sha256Context = data.drop 1) ∧
    (s.Accepts data → s.KeepsBytes a)
  | .dataWrite _ => s.env.state.verified = false
  | .indSent _ => True
  | .timeout => s.env.state.verified = false
  | .disconn => s.env.state.verified = true → s.env.state = .disconnecting ∧ s.FlagsSet P

instance (P : Platform) (s : DfuSrv) (i : Event) : Decidable (i.Committed P s) :=
  match i with
  | .controlWrite a _ data =>
    inferInstanceAs (Decidable ((_ → _ ∧ _) ∧ (_ → data.length = 33 → _ → _) ∧
      (s.Accepts data → s.KeepsBytes a)))
  | .dataWrite _ => inferInstanceAs (Decidable (_ = _))
  | .indSent _ => inferInstanceAs (Decidable True)
  | .timeout => inferInstanceAs (Decidable (_ = _))
  | .disconn => inferInstanceAs (Decidable (_ = true → _ ∧ s.FlagsSet P))

/-! ### The hash of the bank -/

/-- As long as the image is not too long, what has been hashed is what the bank holds. -/
structure Hashed (P : Platform) (s : DfuSrv) : Prop where
  bank : BankSet P s.env
  size : s.env.otaImgSize ≤ s.env.totalBankSize
  hashed : s.env.curOffset ≤ s.env.otaImgSize → s.accepted = s.env.curOffset ∧
    s.env.sha256Context = read s.dev.flash s.env.newImgAddr s.env.curOffset

/-- What the peer has been told to be right: the digest of the bank. -/
structure Verified (P : Platform) (s : DfuSrv) : Prop where
  accepted : s.accepted = s.env.otaImgSize
  digest : s.digest = some (P.sha256 (read s.dev.flash s.env.newImgAddr s.env.otaImgSize))

/-- Where an update is that will commit nothing else, state by state. -/
structure Comparing (P : Platform) (s : DfuSrv) : Prop where
  idle : s.env.state = .idle → s.env = .zero ∧ s.accepted = 0
  modeGet : s.env.state = .modeGet → BankSet P s.env ∧ s.env.curOffset = 0 ∧ s.accepted = 0 ∧
    s.env.sha256Context = [] ∧ s.env.pTemBuf = none
  imageSizeGet : s.env.state = .imageSizeGet → Hashed P s ∧ s.env.pTemBuf = none
  dfuStarted : s.env.state = .dfuStarted → Hashed P s
  dfuFinished : s.env.state = .dfuFinished → Hashed P s ∧ s.env.curOffset = s.env.otaImgSize
  verified : s.env.state.verified = true → Verified P s

/-- What a reset needs: the block on record has not been freed. -/
structure Open (P : Platform) (flags : Ota.ImgFlags) (s : DfuSrv) : Prop where
  commits : ∀ c ∈ s.commits, c.accepted = c.size ∧ c.digest = some (P.sha256 c.image)
  flags : s.commits = [] → s.flags = flags
  blocks : Blocks.Accounted s.allocs s.env.pTemBuf.toList s.freed

/-- The server in a run that commits what has been compared. -/
structure Sound (P : Platform) (flags : Ota.ImgFlags) (s : DfuSrv) : Prop where
  committed : Committed P flags s
  comparing : Comparing P s

variable {P : Platform} {flags : Ota.ImgFlags} {s s' : DfuSrv}

theorem Hashed.congr (h : Hashed P s) (hdev : s'.dev = s.dev) (haccepted : s'.accepted = s.accepted)
    (hnew : s'.env.newImgAddr = s.env.newImgAddr)
    (htotal : s'.env.totalBankSize = s.env.totalBankSize)
    (hsize : s'.env.otaImgSize = s.env.otaImgSize) (hcur : s'.env.curOffset = s.env.curOffset)
    (hsha : s'.env.sha256Context = s.env.sha256Context) : Hashed P s' where
  bank := ⟨hnew.trans h.bank.newImgAddr, htotal.trans h.bank.totalBankSize⟩
  size := by
    rw [hsize, htotal]
    exact h.size
  hashed := by
    rw [hcur, hsize, haccepted, hsha, hdev, hnew]
    exact h.hashed

theorem Verified.congr (h : Verified P s) (hdev : s'.dev = s.dev)
    (haccepted : s'.accepted = s.accepted) (hdigest : s'.digest = s.digest)
    (hnew : s'.env.newImgAddr = s.env.newImgAddr)
    (hsize : s'.env.otaImgSize = s.env.otaImgSize) : Verified P s' where
  accepted := by
    rw [haccepted, hsize]
    exact h.accepted
  digest := by
    rw [hdigest, hdev, hnew, hsize]
    exact h.digest

theorem Open.congr (h : Open P flags s) (hcommits : s'.commits = s.commits)
    (hflags : s'.flags = s.flags) (hallocs : s'.allocs = s.allocs)
    (hbuf : s'.env.pTemBuf = s.env.pTemBuf) (hfreed : s'.freed = s.freed) : Open P flags s' where
  commits := hcommits ▸ h.commits
  flags := by
    rw [hcommits, hflags]
    exact h.flags
  blocks := by
    rw [hallocs, hbuf, hfreed]
    exact h.blocks

/-- Before the comparison the block on record has not been freed. -/
theorem Committed.open (h : Committed P flags s) (hstate : s.env.state.verified = false) :
    Open P flags s where
  commits := h.commits
  flags := h.flags
  blocks := by
    have hblocks := h.blocks
    rwa [DfuSrv.held, hstate, if_neg nofun] at hblocks

/-- From the comparison on every block has been freed. -/
theorem Committed.blocks_of_verified (h : Committed P flags s)
    (hstate : s.env.state.verified = true) : Blocks.Accounted s.allocs [] s.freed := by
  have hblocks := h.blocks
  rwa [DfuSrv.held, if_pos hstate] at hblocks

theorem Open.committed (h : Open P flags s) (hstate : s.env.state.verified = false) :
    Committed P flags s where
  commits := h.commits
  flags := h.flags
  blocks := by
    rw [DfuSrv.held, hstate, if_neg nofun]
    exact h.blocks

/-- The block on record is freed. -/
theorem Open.freed (h : Open P flags s) :
    Blocks.Accounted s.allocs [] (s.freed ++ s.env.pTemBuf.toList) := by
  refine h.blocks.of_count fun id => ?_
  rw [count_append, count_nil]
  omega

/-- **A reset frees the buffer**, if there is one and it has not been freed. -/
theorem Open.reset (h : Open P flags s) : Sound P flags s.reset where
  committed := ⟨h.commits, h.flags, h.freed⟩
  comparing := ⟨fun _ => ⟨rfl, rfl⟩, nofun, nofun, nofun, nofun, nofun⟩

/-! ### A block that is accepted -/

/-- **What has been hashed stays what the bank holds** when a block is accepted that can be read
back. -/
theorem hashed_acceptBlock (h : Hashed P s) {a : Answers} (hkeep : s.KeepsBytes a) :
    Hashed P (acceptBlock P a s) := by
  obtain ⟨hread, hwrap, hclear⟩ := hkeep
  have hcur : u32 (s.env.curOffset + s.env.tempBuf.length) =
      s.env.curOffset + s.env.tempBuf.length := u32_of_lt hwrap
  refine ⟨⟨h.bank.newImgAddr, h.bank.totalBankSize⟩, h.size, fun hle => ?_⟩
  replace hle : s.env.curOffset + s.env.tempBuf.length ≤ s.env.otaImgSize := hcur ▸ hle
  obtain ⟨haccepted, hsha⟩ := h.hashed (by omega)
  have hnew := h.bank.newImgAddr
  have htotal := h.bank.totalBankSize
  have hsize := h.size
  have hdev := inactiveBank_le P.running
  have hmax : flashTotalSize < 2 ^ 32 := by decide
  have haddr : u32 (s.env.newImgAddr + s.env.curOffset) = s.env.newImgAddr + s.env.curOffset :=
    u32_of_lt (by omega)
  refine ⟨(congrArg (· + s.env.tempBuf.length) haccepted).trans hcur.symm, ?_⟩
  -- what is read back is what the bank holds there
  have hback : ∀ f, (rawFlashRead P.running (s.env.newImgAddr + s.env.curOffset) none f
      s.env.tempBuf).2 = read f (s.env.newImgAddr + s.env.curOffset) s.env.tempBuf.length := by
    intro f
    refine rawFlashRead_inactive ?_
    have hconsts : reImg0Offset < reImg1Offset ∧ reImg1Offset < reImg1End := by decide
    rw [inactiveBank] at hnew htotal
    split_ifs at hnew htotal ⊢ with hrun <;> dsimp only at hnew htotal <;> omega
  -- the sector erased then holds none of the bytes hashed
  have herased : ∀ d : DfuSrv, read (d.erase P s.env.eraseStartAddr).dev.flash s.env.newImgAddr
      (s.env.curOffset + s.env.tempBuf.length) =
        read d.dev.flash s.env.newImgAddr (s.env.curOffset + s.env.tempBuf.length) := by
    intro d
    exact read_congr fun x hx hx' => rawFlashErase_flash_of_not_mem P.rom (by omega) d.dev
  have hwritten : read (s.write P (s.env.newImgAddr + s.env.curOffset) s.env.tempBuf).dev.flash
      s.env.newImgAddr s.env.curOffset = read s.dev.flash s.env.newImgAddr s.env.curOffset :=
    read_congr fun x _ hx' => rawFlashWrite_flash_of_not_mem P.rom (Or.inl hx') s.dev
  have hafter : (acceptBlock P a s).dev = ((s.write P (s.env.newImgAddr + s.env.curOffset)
      s.env.tempBuf).erase P s.env.eraseStartAddr).dev :=
    congrArg (fun addr => ((s.write P addr s.env.tempBuf).erase P s.env.eraseStartAddr).dev) haddr
  change s.env.sha256Context ++ (rawFlashRead P.running _ a.readFailed _ _).2 =
    read _ s.env.newImgAddr (u32 _)
  rw [hread, hcur, haddr, hback, hsha, ← hwritten, ← read_add, hafter]
  exact (herased _).symm

/-! ### The commands -/

/-- What the switch leaves when all is well; on an error it is reset. -/
def Outcome.Sound (P : Platform) (flags : Ota.ImgFlags) : Outcome → Prop
  | .done s => Dfu.Sound P flags s
  | .error _ s => Open P flags s
  | .return s => Dfu.Sound P flags s

theorem Sound.tx (h : Sound P flags s) (opcode : UInt8) (e : DfuError) :
    Sound P flags (s.tx opcode e) where
  committed := ⟨h.committed.commits, h.committed.flags, h.committed.blocks⟩
  comparing :=
    { idle := h.comparing.idle
      modeGet := fun hs => by
        obtain ⟨hbank, hrest⟩ := h.comparing.modeGet hs
        exact ⟨⟨hbank.newImgAddr, hbank.totalBankSize⟩, hrest⟩
      imageSizeGet := fun hs => by
        obtain ⟨hhashed, hrest⟩ := h.comparing.imageSizeGet hs
        exact ⟨hhashed.congr rfl rfl rfl rfl rfl rfl rfl, hrest⟩
      dfuStarted := fun hs => (h.comparing.dfuStarted hs).congr rfl rfl rfl rfl rfl rfl rfl
      dfuFinished := fun hs => by
        obtain ⟨hhashed, hrest⟩ := h.comparing.dfuFinished hs
        exact ⟨hhashed.congr rfl rfl rfl rfl rfl rfl rfl, hrest⟩
      verified := fun hs => (h.comparing.verified hs).congr rfl rfl rfl rfl rfl }

theorem Outcome.Sound.finish {o : Outcome} (h : o.Sound P flags) (opcode : UInt8) :
    Dfu.Sound P flags (o.finish opcode) := by
  cases o with
  | done s => exact Dfu.Sound.tx h _ _
  | error e s => exact Open.reset (Open.congr h rfl rfl rfl rfl rfl)
  | «return» s => exact h

/-- A server in one state need only be right for that state. -/
theorem Comparing.of_state {st : DfuState} (hs : s.env.state = st)
    (h : match st with
      | .idle => s.env = .zero ∧ s.accepted = 0
      | .modeGet => BankSet P s.env ∧ s.env.curOffset = 0 ∧ s.accepted = 0 ∧
          s.env.sha256Context = [] ∧ s.env.pTemBuf = none
      | .imageSizeGet => Hashed P s ∧ s.env.pTemBuf = none
      | .dfuStarted => Hashed P s
      | .dfuFinished => Hashed P s ∧ s.env.curOffset = s.env.otaImgSize
      | _ => Verified P s) : Comparing P s := by
  cases st <;> refine ⟨?_, ?_, ?_, ?_, ?_, ?_⟩ <;> rw [hs] <;>
    first | exact fun _ => h | exact nofun

theorem sound_onMode (h : Sound P flags s) (hearly : s.env.state.verified = false)
    (data : List UInt8) : (onMode P data s).Sound P flags := by
  have hopen := h.committed.open hearly
  rw [onMode]
  split_ifs with hstate hmode
  · exact hopen
  · obtain ⟨henv, haccepted⟩ := h.comparing.idle (not_not.mp hstate)
    refine ⟨Open.committed (hopen.congr rfl rfl rfl rfl rfl) rfl, .of_state rfl ?_⟩
    rw [henv]
    exact ⟨⟨rfl, rfl⟩, rfl, haccepted, rfl, rfl⟩
  · exact h

theorem sound_onImageSize (h : Sound P flags s) (hearly : s.env.state.verified = false)
    (data : List UInt8) : (onImageSize P data s).Sound P flags := by
  have hopen := h.committed.open hearly
  rw [onImageSize]
  split_ifs with hstate hsize
  · exact hopen
  · exact hopen
  · obtain ⟨hbank, hcur, haccepted, hsha, hbuf⟩ := h.comparing.modeGet (not_not.mp hstate)
    refine ⟨Open.committed (hopen.congr rfl rfl rfl rfl rfl) rfl, .of_state rfl ⟨⟨?_, ?_, ?_⟩, hbuf⟩⟩
    · exact ⟨hbank.newImgAddr, hbank.totalBankSize⟩
    · exact not_lt.mp (not_or.mp hsize).2
    · intro _
      rw [hcur, hsha, read_zero]
      exact ⟨haccepted, rfl⟩

theorem sound_onStartDfu (h : Sound P flags s) (hearly : s.env.state.verified = false)
    (a : Answers) : (onStartDfu a s).Sound P flags := by
  have hopen := h.committed.open hearly
  rw [onStartDfu]
  split_ifs with hstate hmalloc hparam
  · exact hopen
  all_goals
    obtain ⟨hhashed, hbuf⟩ := h.comparing.imageSizeGet (not_not.mp hstate)
    have hblocks := hopen.blocks
    rw [hbuf] at hblocks
  · exact ⟨hopen.commits, hopen.flags, hblocks⟩
  · exact ⟨hopen.commits, hopen.flags, hblocks.alloc⟩
  · refine ⟨Open.committed ⟨hopen.commits, hopen.flags, hblocks.alloc⟩ rfl, .of_state rfl ?_⟩
    exact hhashed.congr rfl rfl rfl rfl rfl rfl rfl

theorem sound_onVerification (h : Sound P flags s) (hearly : s.env.state.verified = false)
    (data : List UInt8) (hdigest : s.env.state = .dfuFinished →
      P.sha256 s.env.sha256Context = data.drop 1) :
    (onVerification P data s).Sound P flags := by
  have hopen := h.committed.open hearly
  rw [onVerification]
  dsimp only
  split_ifs with hstate hequal
  · exact hopen
  · exact absurd (hdigest (not_not.mp hstate)) hequal
  · obtain ⟨hhashed, hcur⟩ := h.comparing.dfuFinished (not_not.mp hstate)
    obtain ⟨haccepted, hsha⟩ := hhashed.hashed hcur.le
    refine ⟨⟨hopen.commits, hopen.flags, hopen.freed⟩, .of_state rfl ⟨haccepted.trans hcur, ?_⟩⟩
    refine congrArg some ((not_not.mp hequal).symm.trans (congrArg P.sha256 ?_))
    change s.env.sha256Context = _
    rw [hsha, hcur]
    rfl

/-- The command to reboot follows the comparison. -/
theorem sound_onReboot (h : Sound P flags s) (hstate : s.env.state = .verificationPass) :
    (onReboot s).Sound P flags := by
  have hv : s.env.state.verified = true := congrArg DfuState.verified hstate
  rw [onReboot, if_neg (not_not_intro hstate)]
  exact ⟨⟨h.committed.commits, h.committed.flags, h.committed.blocks_of_verified hv⟩,
    .of_state rfl ((h.comparing.verified hv).congr rfl rfl rfl rfl rfl)⟩

theorem sound_onCrcCheck (h : Sound P flags s) (hearly : s.env.state.verified = false)
    (a : Answers) (data : List UInt8) (hkeep : s.env.state = .dfuStarted →
      crc16 s.env.tempBuf 0 = remoteCrc data → s.KeepsBytes a) :
    (onCrcCheck P a data s).Sound P flags := by
  have hopen := h.committed.open hearly
  rw [onCrcCheck]
  dsimp only
  split_ifs with hstate hcrc hdone
  · exact hopen
  · have hstarted := not_not.mp hstate
    have hhashed := hashed_acceptBlock (h.comparing.dfuStarted hstarted) (hkeep hstarted hcrc)
    exact ⟨Open.committed (hopen.congr rfl rfl rfl rfl rfl) rfl,
      .of_state rfl ⟨hhashed.congr rfl rfl rfl rfl rfl rfl rfl, hdone⟩⟩
  · have hstarted := not_not.mp hstate
    have hhashed := hashed_acceptBlock (h.comparing.dfuStarted hstarted) (hkeep hstarted hcrc)
    have hstate' : (acceptBlock P a s).env.state = .dfuStarted := hstarted
    exact ⟨Open.committed (hopen.congr rfl rfl rfl rfl rfl) (congrArg DfuState.verified hstate'),
      .of_state hstate' hhashed⟩
  · have hstarted := not_not.mp hstate
    have hdropped : Sound P flags { s with env := { s.env with tempBuf := [] } } :=
      ⟨Open.committed (hopen.congr rfl rfl rfl rfl rfl) hearly, .of_state hstarted
        ((h.comparing.dfuStarted hstarted).congr rfl rfl rfl rfl rfl rfl rfl)⟩
    exact hdropped.tx _ _

/-- The opcode of `DFU_OPCODE_VERIFICATION`. -/
theorem eq_three_of_dfuOpcode {b : UInt8} (h : dfuOpcode b = some .verification) : b = 3 := by
  have hthree : ∀ n < 7, [DfuOpcode.mode, .imageSize, .startDfu, .verification, .reboot, .reset,
      .crcCheck][n]? = some .verification → n = 3 := by decide
  exact UInt8.toNat_inj.mp (hthree _ (List.getElem?_eq_some_iff.mp h).1 h)

/-- The first byte of a write that is not empty is its opcode. -/
theorem head?_of_headD {data : List UInt8} {behind b : UInt8} {n : ℕ} (hlen : data.length = n + 1)
    (h : data.headD behind = b) : data.head? = some b := by
  obtain ⟨c, rest, rfl⟩ := exists_cons_of_length_eq_add_one hlen
  exact congrArg some h

/-- **A control write commits nothing that has not been compared**, and frees nothing twice. -/
theorem sound_control (h : Sound P flags s) (a : Answers) (behind : UInt8) (data : List UInt8)
    (hok : Event.Committed P s (.controlWrite a behind data)) :
    Sound P flags (appDfuSrvControlCb P a behind data s) := by
  obtain ⟨hlate, hdigest, hkeep⟩ := hok
  refine Outcome.Sound.finish ?_ _
  cases hv : s.env.state.verified with
  | true =>
    obtain ⟨hstate, rfl⟩ := hlate hv
    exact sound_onReboot h hstate
  | false =>
    have hopen := h.committed.open hv
    rw [controlSwitch]
    cases hop : dfuOpcode (data.headD behind) with
    | none => exact hopen
    | some op =>
      dsimp only
      split_ifs with hlen
      · exact hopen
      have hlen' := not_not.mp hlen
      cases op with
      | mode => exact sound_onMode h hv data
      | imageSize => exact sound_onImageSize h hv data
      | startDfu => exact sound_onStartDfu h hv a
      | verification =>
        exact sound_onVerification h hv data fun hs =>
          hdigest hs hlen' (head?_of_headD hlen' (eq_three_of_dfuOpcode hop))
      | reboot =>
        rw [onReboot, if_pos]
        · exact hopen
        · intro hs
          rw [hs] at hv
          cases hv
      | reset => exact hopen.reset
      | crcCheck =>
        exact sound_onCrcCheck h hv a data fun hs hcrc =>
          hkeep ⟨hs, hlen', head?_of_headD hlen' (eq_six_of_dfuOpcode hop), hcrc⟩

/-! ### The other events -/

theorem sound_data (h : Sound P flags s) (hearly : s.env.state.verified = false)
    (data : List UInt8) : Sound P flags (appDfuSrvDataCb data s) := by
  have hopen := h.committed.open hearly
  rw [appDfuSrvDataCb]
  split_ifs with hstate hlen
  · exact hopen.reset
  · have hsent : Open P flags (s.tx opcodeReset .wrongLength) := hopen.congr rfl rfl rfl rfl rfl
    exact hsent.reset
  · have hstarted := not_not.mp hstate
    exact ⟨Open.committed (hopen.congr rfl rfl rfl rfl rfl) hearly, .of_state hstarted
      ((h.comparing.dfuStarted hstarted).congr rfl rfl rfl rfl rfl rfl rfl)⟩

/-- The last indication has been confirmed. -/
theorem sound_ind (h : Sound P flags s) (ok : Bool) : Sound P flags (appDfuSrvIndCb ok s) := by
  rw [appDfuSrvIndCb]
  split_ifs with hlast
  · have hv : s.env.state.verified = true := congrArg DfuState.verified hlast.1
    exact ⟨⟨h.committed.commits, h.committed.flags, h.committed.blocks_of_verified hv⟩,
      .of_state rfl ((h.comparing.verified hv).congr rfl rfl rfl rfl rfl)⟩
  · exact h

/-- **The flags are set for an image that has been compared.** -/
theorem sound_disconn (h : Sound P flags s)
    (hok : s.env.state.verified = true → s.env.state = .disconnecting ∧ s.FlagsSet P) :
    Sound P flags (appDfuSrvDisconnCb P s) := by
  rw [appDfuSrvDisconnCb]
  split_ifs with hstate
  · refine Open.reset (h.committed.open ?_)
    cases hv : s.env.state.verified with
    | false => rfl
    | true => exact absurd (hok hv).1 hstate
  have hlast := not_not.mp hstate
  have hv : s.env.state.verified = true := congrArg DfuState.verified hlast
  have hset := (hok hv).2
  have hverified := h.comparing.verified hv
  have hflag : appDfuSrvSetFlag P s = (true, { s with
      flags := (P.boot.setImgFlag (P.boot.setImgFlag s.flags
        (flagCalls s.env.workingBank).1).2 (flagCalls s.env.workingBank).2).2
      commits := s.commits ++ [s.commit] }) := by
    exact if_pos hset
  rw [hflag]
  refine ⟨⟨fun c hc => ?_, fun hnil => ?_, ?_⟩, .of_state hlast ?_⟩
  · rcases mem_append.mp hc with hc | hc
    · exact h.committed.commits c hc
    · rw [mem_singleton.mp hc]
      exact ⟨hverified.accepted, hverified.digest⟩
  · exact absurd hnil (append_ne_nil_of_right_ne_nil _ (cons_ne_nil _ _))
  · dsimp only [DfuSrv.held]
    rw [if_pos rfl, if_pos hv]
    exact h.committed.blocks_of_verified hv
  · exact hverified.congr rfl rfl rfl rfl rfl

/-- **The server stays sound** by every event that meets the condition. -/
theorem sound_step {i : Event} (h : Sound P flags s) (hok : i.Committed P s)
    (hstep : step P i s = some s') : Sound P flags s' := by
  rw [step] at hstep
  split_ifs at hstep
  cases hstep
  cases i with
  | controlWrite a behind data => exact sound_control h a behind data hok
  | dataWrite data => exact sound_data h hok data
  | indSent ok => exact sound_ind h ok
  | timeout =>
    have hopen := h.committed.open hok
    exact Open.reset (hopen.congr rfl rfl rfl rfl rfl)
  | disconn => exact sound_disconn h hok

theorem sound_init (P : Platform) (dev : Dev) (flags : Ota.ImgFlags) :
    Sound P flags (dfuSrvInit dev flags) where
  committed := ⟨nofun, fun _ => rfl, Blocks.accounted_zero⟩
  comparing := .of_state rfl ⟨rfl, rfl⟩

/-- The SHA-256 of three blank bytes. -/
def digestBlank : List UInt8 :=
  [0x5A, 0xE7, 0xE6, 0xA4, 0x23, 0x04, 0xDC, 0x6E, 0x41, 0x76, 0x21, 0x0B, 0x83, 0xC4, 0x30, 0x24,
    0xF9, 0x9A, 0x0B, 0xCE, 0x9A, 0x87, 0x0C, 0x3B, 0x6D, 0x2C, 0x95, 0xFC, 0x8E, 0xBF, 0xB7, 0x4C]

/-- A platform on which every program fails, as far as these images are concerned. -/
def platformStuck : Platform where
  rom := ⟨fun _ p => match p with
    | .program _ _ => -1
    | .erase _ _ => 0⟩
  boot := Ota.maskBootRom
  sha256 bs := if bs = [1, 2, 3] then digest123 else digestBlank
  running := 0

/-- The three bytes are sent in one block and compared; `a` is what the calls for the block
answer. -/
def sendThree (a : Answers) : List Event :=
  startThree ++ [.dataWrite [1, 2, 3], .controlWrite a 0 [6, 0x10, 0xA1], command (3 :: digest123)]

/-- The command to reboot is sent and confirmed, and the link is gone. -/
def rebootThree : List Event := [command [4], .indSent true, .disconn]

end Gd32.Dfu
