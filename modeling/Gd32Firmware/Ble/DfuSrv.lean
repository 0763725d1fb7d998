import Gd32Firmware.Lib.LittleEndian
import Gd32Firmware.Lib.Machine
import Gd32Firmware.Ota.Commit
import Gd32Firmware.Util.Crc

/-!
# The firmware update over Bluetooth

`app_dfu_srv.c`: a peer writes commands to one characteristic and the bytes of an image to another.
The bytes are gathered in a buffer of one sector; the command `DFU_OPCODE_CRC_CHECK` has the buffer
written behind what was written before, if its checksum is right, and one sector more erased. The
environment is cleared by `app_dfu_srv_reset`, which everything that goes wrong calls.

The ROM, the flash and the hash are outside the repository (`Dfu.Platform`), and so are the
allocator and the link, whose answers come with the write that asks for them. The timer is left
out: it may expire at any moment.
-/

namespace Gd32

open List

variable {issued : List Prim} {begun : List ℕ} {lo : ℕ}

namespace Dfu

open NorFlash

/-! ### The environment -/

def flashWriteSize : ℕ := 4096

/-- `ble_dfu_srv_state_t`. -/
inductive DfuState where
  | idle
  | modeGet
  | imageSizeGet
  | dfuStarted
  | dfuFinished
  | verificationPass
  | waitLastCmd
  | disconnecting
  deriving DecidableEq, Repr

/-- `dfu_opcode_t`. -/
inductive DfuOpcode where
  | mode
  | imageSize
  | startDfu
  | verification
  | reboot
  | reset
  | crcCheck
  deriving DecidableEq, Repr

/-- `dfu_error_t`. -/
inductive DfuError where
  | noError
  | memoryCapaExceed
  | stateError
  | hashError
  | wrongLength
  | timeout
  | paramUpdFail
  | crc

/-- The opcode of a byte; `none` from `DFU_OPCODE_MAX` on. -/
def dfuOpcode (b : UInt8) : Option DfuOpcode :=
  [.mode, .imageSize, .startDfu, .verification, .reboot, .reset, .crcCheck][b.toNat]?

/-- `dfu_cmd_len` of `dfu_srv_cmd_cb`. -/
def DfuOpcode.cmdLen : DfuOpcode → ℕ
  | .mode => 2
  | .imageSize => 5
  | .startDfu => 1
  | .verification => 33
  | .reboot => 1
  | .reset => 2
  | .crcCheck => 3

/-- `dfu_srv_env_t`. -/
structure DfuSrvEnv where
  state : DfuState
  workingBank : ℕ
  newImgAddr : ℕ
  totalBankSize : ℕ
  otaImgSize : ℕ
  curOffset : ℕ
  /-- The first `temp_buf_used_size` bytes of the buffer. -/
  tempBuf : List UInt8
  /-- `p_tem_buf`, the number of a block. -/
  pTemBuf : Option ℕ
  eraseStartAddr : ℕ
  /-- The bytes `sha256_context` has been given. -/
  sha256Context : List UInt8

/-- `dfu_srv_env` after the `sys_memset` of `app_dfu_srv_reset`. -/
def DfuSrvEnv.zero : DfuSrvEnv := ⟨.idle, 0, 0, 0, 0, 0, [], none, 0, []⟩

/-- What an image was like when `app_dfu_srv_set_flag` was called. -/
structure Commit where
  size : ℕ
  /-- The number of bytes accepted since the last reset. -/
  accepted : ℕ
  /-- The first `ota_img_size` bytes of the bank. -/
  image : List UInt8
  /-- The digest the peer sent, if one was compared since the last reset. -/
  digest : Option (List UInt8)
  deriving DecidableEq, Repr

/-- The server, and what it has done so far. -/
structure DfuSrv where
  env : DfuSrvEnv
  dev : Dev
  flags : Ota.ImgFlags
  /-- The indications sent: an opcode and an error. -/
  sent : List (UInt8 × DfuError)
  /-- The software reset has been asked for. -/
  rebooted : Bool
  /-- The calls of `raw_flash_erase` and `raw_flash_write`, oldest first. -/
  issued : List Prim
  /-- Where among these calls the transfers began. -/
  begun : List ℕ
  /-- The number of bytes accepted since the last reset. -/
  accepted : ℕ
  /-- The digest compared last since the last reset. -/
  digest : Option (List UInt8)
  /-- The calls of `app_dfu_srv_set_flag`. -/
  commits : List Commit
  allocs : ℕ
  freed : List ℕ

/-- What is outside: the flash ROM, the flags of the images, SHA-256 and the image that runs. -/
structure Platform where
  rom : Rom
  /-- `rom_sys_set_img_flag`. -/
  boot : Ota.BootRom
  sha256 : List UInt8 → List UInt8
  /-- `SYS_RUNNING_IMG`. -/
  running : ℕ

/-- What the calls answer that a control write makes. -/
structure Answers where
  /-- `sys_malloc` returns a block. -/
  mallocOk : Bool
  /-- `ble_conn_param_update_req` succeeds. -/
  paramUpdOk : Bool
  /-- What `rom_flash_read` leaves in the buffer when it fails. -/
  readFailed : Option (List UInt8)

variable (P : Platform)

/-! ### The callbacks -/

/-- `sys_mfree`; a null pointer is left alone. -/
def DfuSrv.mfree (s : DfuSrv) (p : Option ℕ) : DfuSrv := { s with freed := s.freed ++ p.toList }

/-- `ble_ota_srv_tx` of two bytes. -/
def DfuSrv.tx (s : DfuSrv) (opcode : UInt8) (e : DfuError) : DfuSrv :=
  { s with sent := s.sent ++ [(opcode, e)] }

/-- `app_dfu_srv_reset`. -/
def DfuSrv.reset (s : DfuSrv) : DfuSrv :=
  { s.mfree s.env.pTemBuf with env := .zero, accepted := 0, digest := none }

/-- A call of `raw_flash_erase` for one sector. -/
def DfuSrv.erase (s : DfuSrv) (addr : ℕ) : DfuSrv :=
  { s with
    dev := (rawFlashErase P.rom addr flashWriteSize s.dev).2
    issued := s.issued ++ [.erase addr flashWriteSize] }

/-- A call of `raw_flash_write`. -/
def DfuSrv.write (s : DfuSrv) (addr : ℕ) (data : List UInt8) : DfuSrv :=
  { s with
    dev := (rawFlashWrite P.rom addr data s.dev).2
    issued := s.issued ++ [.program addr data] }

def opcodeReset : UInt8 := 5

def appDfuSrvDataCb (data : List UInt8) (s : DfuSrv) : DfuSrv :=
  if s.env.state ≠ .dfuStarted then s.reset
  else if flashWriteSize < s.env.tempBuf.length + data.length then
    (s.tx opcodeReset .wrongLength).reset
  else { s with env := { s.env with tempBuf := s.env.tempBuf ++ data } }

/-- How the switch of `app_dfu_srv_control_cb` is left. -/
inductive Outcome where
  /-- It is answered with `DFU_ERROR_NO_ERROR`. -/
  | done (s : DfuSrv)
  /-- A jump to `error`. -/
  | error (e : DfuError) (s : DfuSrv)
  | return (s : DfuSrv)

/-- The bank that is not running: `new_img_addr` and `total_bank_size`. -/
def inactiveBank (workingBank : ℕ) : ℕ × ℕ :=
  if workingBank ≠ 0 then (reImg0Offset, reImg1Offset - reImg0Offset)
  else (reImg1Offset, reImg1End - reImg1Offset)

/-- `case DFU_OPCODE_MODE`; another mode than `DFU_MODE_BLE` changes nothing. -/
def onMode (data : List UInt8) (s : DfuSrv) : Outcome :=
  if s.env.state ≠ .idle then .error .stateError s
  else if data.getD 1 0 = 0 then
    .done { s with
      env := { s.env with
        workingBank := P.running
        newImgAddr := (inactiveBank P.running).1
        totalBankSize := (inactiveBank P.running).2
        eraseStartAddr := (inactiveBank P.running).1
        sha256Context := []
        state := .modeGet }
      begun := s.begun ++ [s.issued.length] }
  else .done s

/-- `case DFU_OPCODE_IMAGE_SIZE`. -/
def onImageSize (data : List UInt8) (s : DfuSrv) : Outcome :=
  let size := LittleEndian.value ((data.drop 1).take 4)
  if s.env.state ≠ .modeGet then .error .stateError s
  else if size = 0 ∨ s.env.totalBankSize < size then .error .memoryCapaExceed s
  else
    .done { s.erase P s.env.eraseStartAddr with
      env := { s.env with
        otaImgSize := size
        eraseStartAddr := u32 (s.env.eraseStartAddr + flashWriteSize)
        state := .imageSizeGet } }

/-- `case DFU_OPCODE_START_DFU`. -/
def onStartDfu (a : Answers) (s : DfuSrv) : Outcome :=
  if s.env.state ≠ .imageSizeGet then .error .stateError s
  else if a.mallocOk = false then
    .error .memoryCapaExceed { s with env := { s.env with pTemBuf := none } }
  else
    let s := { s with env := { s.env with pTemBuf := some s.allocs }, allocs := s.allocs + 1 }
    if a.paramUpdOk = false then .error .paramUpdFail s
    else .done { s with env := { s.env with state := .dfuStarted } }

/-- `case DFU_OPCODE_VERIFICATION`; the buffer is freed and `p_tem_buf` kept. -/
def onVerification (data : List UInt8) (s : DfuSrv) : Outcome :=
  if s.env.state ≠ .dfuFinished then .error .stateError s
  else
    let s := { s.mfree s.env.pTemBuf with digest := some (data.drop 1) }
    if P.sha256 s.env.sha256Context ≠ data.drop 1 then .error .hashError s
    else .done { s with env := { s.env with state := .verificationPass } }

/-- `case DFU_OPCODE_REBOOT`. -/
def onReboot (s : DfuSrv) : Outcome :=
  if s.env.state ≠ .verificationPass then .error .stateError s
  else .done { s with env := { s.env with state := .waitLastCmd } }

/-- The two bytes of a checksum. -/
def remoteCrc (data : List UInt8) : UInt16 :=
  (data.getD 1 0).toUInt16 + ((data.getD 2 0).toUInt16 <<< 8)

/-- A block whose checksum is right: it is written and read back, the next sector is erased. -/
def acceptBlock (a : Answers) (s : DfuSrv) : DfuSrv :=
  let addr := u32 (s.env.newImgAddr + s.env.curOffset)
  let written := s.write P addr s.env.tempBuf
  let back := (rawFlashRead P.running addr a.readFailed written.dev.flash s.env.tempBuf).2
  { written.erase P s.env.eraseStartAddr with
    env := { s.env with
      sha256Context := s.env.sha256Context ++ back
      curOffset := u32 (s.env.curOffset + s.env.tempBuf.length)
      tempBuf := []
      eraseStartAddr := u32 (s.env.eraseStartAddr + flashWriteSize) }
    accepted := s.accepted + s.env.tempBuf.length }

/-- `case DFU_OPCODE_CRC_CHECK`. -/
def onCrcCheck (a : Answers) (data : List UInt8) (s : DfuSrv) : Outcome :=
  if s.env.state ≠ .dfuStarted then .error .stateError s
  else if crc16 s.env.tempBuf 0 = remoteCrc data then
    let s := acceptBlock P a s
    if s.env.curOffset = s.env.otaImgSize then
      .done { s with env := { s.env with state := .dfuFinished } }
    else .done s
  else
    .return ({ s with env := { s.env with tempBuf := [] } }.tx (data.headD 0) .crc)

/-- The switch of `app_dfu_srv_control_cb`, with the two checks in front of it. -/
def controlSwitch (a : Answers) (opcode : UInt8) (data : List UInt8) (s : DfuSrv) : Outcome :=
  match dfuOpcode opcode with
  | none => .error .stateError s
  | some op =>
    if data.length ≠ op.cmdLen then .error .wrongLength s
    else
      match op with
      | .mode => onMode P data s
      | .imageSize => onImageSize P data s
      | .startDfu => onStartDfu a s
      | .verification => onVerification P data s
      | .reboot => onReboot s
      | .reset => .return s.reset
      | .crcCheck => onCrcCheck P a data s

/-- What follows the switch. -/
def Outcome.finish (opcode : UInt8) : Outcome → DfuSrv
  | .done s => s.tx opcode .noError
  | .error e s => (s.tx opcode e).reset
  | .return s => s

/-- `app_dfu_srv_control_cb`; of an empty write the byte behind it is taken for the opcode. -/
def appDfuSrvControlCb (a : Answers) (behind : UInt8) (data : List UInt8) (s : DfuSrv) : DfuSrv :=
  (controlSwitch P a (data.headD behind) data s).finish (data.headD behind)

/-- What `app_dfu_srv_set_flag` finds. -/
def DfuSrv.commit (s : DfuSrv) : Commit :=
  ⟨s.env.otaImgSize, s.accepted, read s.dev.flash s.env.newImgAddr s.env.otaImgSize, s.digest⟩

/-- The two flag writes of `app_dfu_srv_set_flag`. -/
def flagCalls (workingBank : ℕ) : Ota.FlagCall × Ota.FlagCall :=
  (⟨workingBank, Ota.imgFlagIaMask ||| Ota.imgFlagNewerMask, Ota.imgFlagIaOk ||| Ota.imgFlagOlder⟩,
    ⟨Ota.otherIdx workingBank,
      Ota.imgFlagIaMask ||| Ota.imgFlagVerifyMask ||| Ota.imgFlagNewerMask, Ota.imgFlagNewer⟩)

/-- `app_dfu_srv_set_flag`; the sleep mode around the flag writes is left out. -/
def appDfuSrvSetFlag (s : DfuSrv) : Bool × DfuSrv :=
  let r := P.boot.setImgFlag s.flags (flagCalls s.env.workingBank).1
  let r' := P.boot.setImgFlag r.2 (flagCalls s.env.workingBank).2
  let s := { s with flags := r'.2, commits := s.commits ++ [s.commit] }
  if r.1 = 0 ∧ r'.1 = 0 then (true, s) else (false, s.reset)

def appDfuSrvDisconnCb (s : DfuSrv) : DfuSrv :=
  if s.env.state ≠ .disconnecting then s.reset
  else
    let r := appDfuSrvSetFlag P s
    if r.1 = true then { r.2 with rebooted := true } else r.2

/-- `app_dfu_srv_ind_cb`, with the answer of `ble_conn_disconnect`. -/
def appDfuSrvIndCb (disconnectOk : Bool) (s : DfuSrv) : DfuSrv :=
  if s.env.state = .waitLastCmd ∧ disconnectOk = true then
    { s with env := { s.env with state := .disconnecting } }
  else s

def appDfuSrvOtaTimerTimeoutCb (s : DfuSrv) : DfuSrv := (s.tx opcodeReset .timeout).reset

/-! ### Runs -/

/-- What can happen. -/
inductive Event where
  /-- The peer writes to the control characteristic. -/
  | controlWrite (a : Answers) (behind : UInt8) (data : List UInt8)
  /-- The peer writes to the data characteristic. -/
  | dataWrite (data : List UInt8)
  | indSent (disconnectOk : Bool)
  | timeout
  | disconn

/-- The callback of an event. -/
def handle : Event → DfuSrv → DfuSrv
  | .controlWrite a behind data => appDfuSrvControlCb P a behind data
  | .dataWrite data => appDfuSrvDataCb data
  | .indSent ok => appDfuSrvIndCb ok
  | .timeout => appDfuSrvOtaTimerTimeoutCb
  | .disconn => appDfuSrvDisconnCb P

/-- One event; nothing happens after the software reset. -/
def step (i : Event) (s : DfuSrv) : Option DfuSrv :=
  if s.rebooted = true then none else some (handle P i s)

/-- The server after `app_dfu_srv_init`, on a given flash. -/
def dfuSrvInit (dev : Dev) (flags : Ota.ImgFlags) : DfuSrv :=
  ⟨.zero, dev, flags, [], false, [], [], 0, none, [], 0, []⟩

/-- The checksum of the block in the buffer is right, so that the block is accepted. -/
def DfuSrv.Accepts (s : DfuSrv) (data : List UInt8) : Prop :=
  s.env.state = .dfuStarted ∧ data.length = 3 ∧ data.head? = some 6 ∧
    crc16 s.env.tempBuf 0 = remoteCrc data

instance (s : DfuSrv) (data : List UInt8) : Decidable (s.Accepts data) :=
  inferInstanceAs (Decidable (_ ∧ _))

/-! ### What is to be so of the flash -/

/-- Since the last transfer began, every byte of a range has been erased. -/
def Covered (issued : List Prim) (begun : List ℕ) (lo hi : ℕ) : Prop :=
  ∀ x, lo ≤ x → x < hi → ∃ j b n, (∀ t ∈ begun, t ≤ j) ∧ issued[j]? = some (.erase b n) ∧
    b ≤ x ∧ x < b + n

/-- Every byte written had been erased since the transfer began in which it was written. -/
def ErasedFirst (issued : List Prim) (begun : List ℕ) : Prop :=
  ∀ k a bs, issued[k]? = some (.program a bs) → ∀ x, a ≤ x → x < a + bs.length →
    ∃ j < k, (∀ t ∈ begun, t ≤ k → t ≤ j) ∧ ∃ b n, issued[j]? = some (.erase b n) ∧
      b ≤ x ∧ x < b + n

/-- **The update stays in the inactive bank**: every erase and every write lies inside it, what is
written has been erased before, and nothing outside has changed. When no call of the flash fails,
the place of the next block is blank. -/
structure Contained (P : Platform) (dev : Dev) (s : DfuSrv) : Prop where
  inside : ∀ p ∈ s.issued,
    p.Within (inactiveBank P.running).1 ((inactiveBank P.running).1 + (inactiveBank P.running).2)
  erased : ErasedFirst s.issued s.begun
  kept : ∀ x, x < (inactiveBank P.running).1 ∨
    (inactiveBank P.running).1 + (inactiveBank P.running).2 ≤ x → s.dev.flash x = dev.flash x
  blank : P.rom.Reliable → s.env.state = .dfuStarted →
    Blank s.dev.flash (s.env.newImgAddr + s.env.curOffset) s.env.tempBuf.length

/-- When a block is accepted, the sector that is erased next lies in the bank. -/
def Event.Contained (s : DfuSrv) : Event → Prop
  | .controlWrite _ _ data => s.Accepts data →
      s.env.eraseStartAddr + flashWriteSize ≤ s.env.newImgAddr + s.env.totalBankSize
  | _ => True

instance (s : DfuSrv) (i : Event) : Decidable (i.Contained s) :=
  match i with
  | .controlWrite _ _ data => inferInstanceAs (Decidable (s.Accepts data → _))
  | .dataWrite _ => inferInstanceAs (Decidable True)
  | .indSent _ => inferInstanceAs (Decidable True)
  | .timeout => inferInstanceAs (Decidable True)
  | .disconn => inferInstanceAs (Decidable True)

/-! ### The frontiers -/

/-- What has been done to the flash, apart from the environment. -/
structure Traced (P : Platform) (dev : Dev) (s : DfuSrv) : Prop where
  inside : ∀ p ∈ s.issued,
    p.Within (inactiveBank P.running).1 ((inactiveBank P.running).1 + (inactiveBank P.running).2)
  erased : ErasedFirst s.issued s.begun
  kept : ∀ x, x < (inactiveBank P.running).1 ∨
    (inactiveBank P.running).1 + (inactiveBank P.running).2 ≤ x → s.dev.flash x = dev.flash x
  begun : ∀ t ∈ s.begun, t ≤ s.issued.length

/-- The environment has the bank that is not running. -/
structure BankSet (P : Platform) (e : DfuSrvEnv) : Prop where
  newImgAddr : e.newImgAddr = (inactiveBank P.running).1
  totalBankSize : e.totalBankSize = (inactiveBank P.running).2

/-- **The two frontiers of a transfer**: the sectors erased reach at least one sector further than
the bytes written. -/
structure Frontier (P : Platform) (s : DfuSrv) : Prop where
  bank : BankSet P s.env
  low : s.env.newImgAddr + s.env.curOffset + flashWriteSize ≤ s.env.eraseStartAddr
  high : s.env.eraseStartAddr ≤ s.env.newImgAddr + s.env.totalBankSize
  buffer : s.env.tempBuf.length ≤ flashWriteSize
  covered : Covered s.issued s.begun s.env.newImgAddr s.env.eraseStartAddr
  blank : P.rom.Reliable → Blank s.dev.flash (s.env.newImgAddr + s.env.curOffset)
    (s.env.eraseStartAddr - (s.env.newImgAddr + s.env.curOffset))

/-- Where the transfer is, state by state. -/
structure Phase (P : Platform) (s : DfuSrv) : Prop where
  idle : s.env.state = .idle → s.env = .zero
  modeGet : s.env.state = .modeGet → BankSet P s.env ∧
    s.env.eraseStartAddr = s.env.newImgAddr ∧ s.env.curOffset = 0 ∧ s.env.tempBuf = []
  transfer : s.env.state = .imageSizeGet ∨ s.env.state = .dfuStarted → Frontier P s

/-- The server in a run that stays in the bank. -/
structure Confined (P : Platform) (dev : Dev) (s : DfuSrv) : Prop where
  traced : Traced P dev s
  phase : Phase P s

variable {P : Platform} {dev : Dev} {s s' : DfuSrv}

/-- Either bank lies on the device. -/
theorem inactiveBank_le (workingBank : ℕ) :
    (inactiveBank workingBank).1 + (inactiveBank workingBank).2 ≤ flashTotalSize := by
  rw [inactiveBank]
  split <;> decide

theorem Traced.congr (h : Traced P dev s) (hissued : s'.issued = s.issued)
    (hbegun : s'.begun = s.begun) (hdev : s'.dev = s.dev) : Traced P dev s' where
  inside := hissued ▸ h.inside
  erased := hissued ▸ hbegun ▸ h.erased
  kept := hdev ▸ h.kept
  begun := hissued ▸ hbegun ▸ h.begun

theorem Frontier.congr (h : Frontier P s) (hissued : s'.issued = s.issued)
    (hbegun : s'.begun = s.begun) (hdev : s'.dev = s.dev) (hnew : s'.env.newImgAddr = s.env.newImgAddr)
    (htotal : s'.env.totalBankSize = s.env.totalBankSize)
    (hcur : s'.env.curOffset = s.env.curOffset)
    (herase : s'.env.eraseStartAddr = s.env.eraseStartAddr)
    (hbuf : s'.env.tempBuf.length ≤ flashWriteSize) : Frontier P s' where
  bank := ⟨hnew.trans h.bank.newImgAddr, htotal.trans h.bank.totalBankSize⟩
  low := by rw [hnew, hcur, herase]; exact h.low
  high := by rw [hnew, htotal, herase]; exact h.high
  buffer := hbuf
  covered := by rw [hissued, hbegun, hnew, herase]; exact h.covered
  blank := by rw [hdev, hnew, hcur, herase]; exact h.blank

/-- A range that was covered stays covered by the same calls. -/
theorem Covered.append {hi : ℕ}
    (h : Covered issued begun lo hi) (ps : List Prim) : Covered (issued ++ ps) begun lo hi := by
  intro x hlo hhi
  obtain ⟨j, b, n, hj, hget, hx⟩ := h x hlo hhi
  exact ⟨j, b, n, hj, (List.getElem?_append_left (List.getElem?_eq_some_iff.mp hget).1).trans hget,
    hx⟩

/-- The sector erased behind what is covered extends it. -/
theorem Covered.erase {mid n : ℕ}
    (h : Covered issued begun lo mid) (hb : ∀ t ∈ begun, t ≤ issued.length) :
    Covered (issued ++ [.erase mid n]) begun lo (mid + n) := by
  intro x hlo hhi
  rcases lt_or_ge x mid with hx | hx
  · exact h.append _ x hlo hx
  · exact ⟨issued.length, mid, n, hb, List.getElem?_concat_length, hx, hhi⟩

/-- A call of a longer list is one of the calls before, or the last one. -/
theorem getElem?_concat_eq_some {p q : Prim} {k : ℕ}
    (h : (issued ++ [p])[k]? = some q) :
    k < issued.length ∧ issued[k]? = some q ∨ k = issued.length ∧ p = q := by
  rcases lt_or_ge k issued.length with hlt | hge
  · exact Or.inl ⟨hlt, (List.getElem?_append_left hlt).symm.trans h⟩
  · obtain ⟨hk, hq⟩ := List.getElem?_eq_some_iff.mp h
    have hk' : k = issued.length := by
      rw [length_append, length_singleton] at hk
      omega
    subst hk'
    exact Or.inr ⟨rfl, (getElem_concat_length rfl hk).symm.trans hq⟩

/-- What had been erased first is so in a longer list of calls. -/
theorem erasedBefore_append {k x : ℕ} {Q : ℕ → Prop} (hk : k ≤ issued.length)
    (h : ∃ j < k, Q j ∧ ∃ b n, issued[j]? = some (.erase b n) ∧ b ≤ x ∧ x < b + n)
    (ps : List Prim) :
    ∃ j < k, Q j ∧ ∃ b n, (issued ++ ps)[j]? = some (.erase b n) ∧ b ≤ x ∧ x < b + n := by
  obtain ⟨j, hjk, hj, b, n, hget, hin⟩ := h
  exact ⟨j, hjk, hj, b, n, (List.getElem?_append_left (hjk.trans_le hk)).trans hget, hin⟩

/-- An erase needs nothing before it. -/
theorem ErasedFirst.erase (h : ErasedFirst issued begun)
    (a n : ℕ) : ErasedFirst (issued ++ [.erase a n]) begun := by
  intro k b bs hk x hx hx'
  rcases getElem?_concat_eq_some hk with ⟨hlt, hk⟩ | ⟨-, hk⟩
  · exact erasedBefore_append hlt.le (h k b bs hk x hx hx') _
  · cases hk

/-- What is covered may be written. -/
theorem ErasedFirst.write (h : ErasedFirst issued begun)
    {a : ℕ} {data : List UInt8} (hcov : Covered issued begun a (a + data.length)) :
    ErasedFirst (issued ++ [.program a data]) begun := by
  intro k b bs hk x hx hx'
  rcases getElem?_concat_eq_some hk with ⟨hlt, hk⟩ | ⟨rfl, hp⟩
  · exact erasedBefore_append hlt.le (h k b bs hk x hx hx') _
  · cases hp
    obtain ⟨j, c, m, hj, hget, hin⟩ := hcov x hx hx'
    have hlt : j < issued.length := (List.getElem?_eq_some_iff.mp hget).1
    exact erasedBefore_append (le_refl _) ⟨j, hlt, fun t ht _ => hj t ht, c, m, hget, hin⟩ _

/-! ### What the calls of the flash keep -/

/-- An erase in the bank. -/
theorem Traced.erase (h : Traced P dev s) {addr : ℕ} (hlo : (inactiveBank P.running).1 ≤ addr)
    (hhi : addr + flashWriteSize ≤ (inactiveBank P.running).1 + (inactiveBank P.running).2) :
    Traced P dev (s.erase P addr) where
  inside := by
    intro p hp
    rcases mem_append.mp hp with hp | hp
    · exact h.inside p hp
    · rw [mem_singleton.mp hp]
      exact ⟨hlo, hhi⟩
  erased := h.erased.erase _ _
  kept := by
    intro x hx
    have hout : x < addr ∨ addr + flashWriteSize ≤ x := by omega
    exact (rawFlashErase_flash_of_not_mem P.rom hout s.dev).trans (h.kept x hx)
  begun := by
    intro t ht
    exact (h.begun t ht).trans (by simp [DfuSrv.erase])

/-- A write in the part of the bank that has been erased. -/
theorem Traced.write (h : Traced P dev s) {addr : ℕ} {data : List UInt8}
    (hlo : (inactiveBank P.running).1 ≤ addr)
    (hhi : addr + data.length ≤ (inactiveBank P.running).1 + (inactiveBank P.running).2)
    (hcov : Covered s.issued s.begun addr (addr + data.length)) :
    Traced P dev (s.write P addr data) where
  inside := by
    intro p hp
    rcases mem_append.mp hp with hp | hp
    · exact h.inside p hp
    · rw [mem_singleton.mp hp]
      exact ⟨hlo, hhi⟩
  erased := h.erased.write hcov
  kept := by
    intro x hx
    have hout : x < addr ∨ addr + data.length ≤ x := by omega
    exact (rawFlashWrite_flash_of_not_mem P.rom hout s.dev).trans (h.kept x hx)
  begun := by
    intro t ht
    exact (h.begun t ht).trans (by simp [DfuSrv.write])

/-- A range of the bank is part of what was covered. -/
theorem Covered.mono {hi lo' hi' : ℕ}
    (h : Covered issued begun lo hi) (hlo : lo ≤ lo') (hhi : hi' ≤ hi) :
    Covered issued begun lo' hi' :=
  fun x hx hx' => h x (hlo.trans hx) (hx'.trans_le hhi)

section Frontiers

/-- A frontier behind one sector more. -/
theorem blank_erase_behind (hrel : P.rom.Reliable) {mid : ℕ} (hlo : lo ≤ mid)
    (hdev : mid + flashWriteSize ≤ flashTotalSize) (h : Blank s.dev.flash lo (mid - lo)) :
    Blank (s.erase P mid).dev.flash lo (mid + flashWriteSize - lo) := by
  intro x hx hx'
  rcases lt_or_ge x mid with hlt | hge
  · refine (rawFlashErase_flash_of_not_mem P.rom (Or.inl hlt) s.dev).trans (h x hx ?_)
    omega
  · have herase := hrel.rawFlashErase_eq mid (by decide) (by decide) hdev
      s.dev
    have : (s.erase P mid).dev.flash = erase s.dev.flash mid flashWriteSize :=
      congrArg (fun r => r.2.flash) herase
    rw [this]
    exact blank_erase s.dev.flash mid flashWriteSize x hge (by omega)

/-- The sizes that keep the frontiers from wrapping around. -/
theorem Frontier.bounds (h : Frontier P s) :
    s.env.newImgAddr + s.env.totalBankSize ≤ flashTotalSize ∧ flashTotalSize < 2 ^ 32 - 2 ^ 16 := by
  rw [h.bank.newImgAddr, h.bank.totalBankSize]
  exact ⟨inactiveBank_le P.running, by decide⟩

/-- **A block that is accepted is written where sectors have been erased**, and both frontiers move
on. -/
theorem confined_acceptBlock (ht : Traced P dev s) (h : Frontier P s) (a : Answers)
    (hfit : s.env.eraseStartAddr + flashWriteSize ≤ s.env.newImgAddr + s.env.totalBankSize) :
    Traced P dev (acceptBlock P a s) ∧ Frontier P (acceptBlock P a s) := by
  obtain ⟨hdev, hmax⟩ := h.bounds
  have hlow := h.low
  have hbuf := h.buffer
  have hnew := h.bank.newImgAddr
  have htotal := h.bank.totalBankSize
  have haddr : u32 (s.env.newImgAddr + s.env.curOffset) = s.env.newImgAddr + s.env.curOffset :=
    u32_of_lt (by omega)
  have hcur : u32 (s.env.curOffset + s.env.tempBuf.length) =
      s.env.curOffset + s.env.tempBuf.length := u32_of_lt (by omega)
  have herase : u32 (s.env.eraseStartAddr + flashWriteSize) =
      s.env.eraseStartAddr + flashWriteSize := u32_of_lt (by omega)
  -- first the block is written, then the next sector erased
  have hwritten : Traced P dev
      (s.write P (s.env.newImgAddr + s.env.curOffset) s.env.tempBuf) :=
    ht.write (by omega) (by omega) (h.covered.mono (by omega) (by omega))
  have herased : Traced P dev ((s.write P (s.env.newImgAddr + s.env.curOffset)
      s.env.tempBuf).erase P s.env.eraseStartAddr) := hwritten.erase (by omega) (by omega)
  rw [acceptBlock]
  rw [haddr, hcur, herase]
  refine ⟨herased.congr rfl rfl rfl, ?_, ?_, ?_, ?_, ?_, ?_⟩
  · exact ⟨hnew, htotal⟩
  · dsimp only
    omega
  · exact hfit
  · exact Nat.zero_le _
  · exact (h.covered.append [_]).erase hwritten.begun
  · intro hrel
    have hblank : Blank (s.write P (s.env.newImgAddr + s.env.curOffset) s.env.tempBuf).dev.flash
        (s.env.newImgAddr + (s.env.curOffset + s.env.tempBuf.length))
        (s.env.eraseStartAddr - (s.env.newImgAddr + (s.env.curOffset + s.env.tempBuf.length))) := by
      intro x hx hx'
      refine (rawFlashWrite_flash_of_not_mem P.rom (Or.inr (by omega)) s.dev).trans ?_
      exact h.blank hrel x (by omega) (by omega)
    have hbehind := blank_erase_behind hrel (by omega) (by omega) hblank
    exact hbehind

end Frontiers

/-! ### The commands -/

/-- What the switch leaves when all is well: on an error the environment does not matter. -/
def Outcome.Confined (P : Platform) (dev : Dev) : Outcome → Prop
  | .done s => Dfu.Confined P dev s
  | .error _ s => Traced P dev s
  | .return s => Dfu.Confined P dev s

/-- A reset forgets the transfer. -/
theorem Traced.reset (h : Traced P dev s) : Confined P dev s.reset where
  traced := h.congr rfl rfl rfl
  phase := ⟨fun _ => rfl, nofun, nofun⟩

theorem Confined.congr (h : Confined P dev s) (henv : s'.env = s.env)
    (hissued : s'.issued = s.issued) (hbegun : s'.begun = s.begun) (hdev : s'.dev = s.dev) :
    Confined P dev s' where
  traced := h.traced.congr hissued hbegun hdev
  phase := by
    refine ⟨?_, ?_, fun hs => ?_⟩
    · rw [henv]
      exact h.phase.idle
    · rw [henv]
      exact h.phase.modeGet
    · rw [henv] at hs
      have hf := h.phase.transfer hs
      exact hf.congr hissued hbegun hdev (congrArg _ henv) (congrArg _ henv) (congrArg _ henv)
        (congrArg _ henv) (henv ▸ hf.buffer)

theorem Confined.tx (h : Confined P dev s) (opcode : UInt8) (e : DfuError) :
    Confined P dev (s.tx opcode e) := h.congr rfl rfl rfl rfl

/-- The image is there. -/
def DfuState.late : DfuState → Bool
  | .dfuFinished => true
  | .verificationPass => true
  | .waitLastCmd => true
  | .disconnecting => true
  | _ => false

/-- Once the image is there, the frontiers do not matter. -/
theorem Traced.confined_of_late (h : Traced P dev s) (hlate : s.env.state.late = true) :
    Confined P dev s := by
  refine ⟨h, fun hs => ?_, fun hs => ?_, fun hs => ?_⟩
  · rw [hs] at hlate
    cases hlate
  · rw [hs] at hlate
    cases hlate
  · rcases hs with hs | hs
    · rw [hs] at hlate
      cases hlate
    · rw [hs] at hlate
      cases hlate

theorem Outcome.Confined.finish {o : Outcome} (h : o.Confined P dev) (opcode : UInt8) :
    Dfu.Confined P dev (o.finish opcode) := by
  cases o with
  | done s => exact Dfu.Confined.tx h _ _
  | error e s => exact Traced.reset (Traced.congr h rfl rfl rfl)
  | «return» s => exact h

/-- A transfer begins, or another mode is asked for. -/
theorem confined_onMode (h : Confined P dev s) (data : List UInt8) :
    (onMode P data s).Confined P dev := by
  rw [onMode]
  split_ifs with hstate hmode
  · exact h.traced
  · have henv := h.phase.idle (not_not.mp hstate)
    refine ⟨⟨h.traced.inside, ?_, h.traced.kept, ?_⟩, nofun, fun _ => ?_, nofun⟩
    · intro k a bs hk x hx hx'
      have hlt : k < s.issued.length := (List.getElem?_eq_some_iff.mp hk).1
      obtain ⟨j, hjk, hj, hget⟩ := h.traced.erased k a bs hk x hx hx'
      refine ⟨j, hjk, fun t ht htk => ?_, hget⟩
      rcases mem_append.mp ht with ht | ht
      · exact hj t ht htk
      · rw [mem_singleton.mp ht] at htk
        omega
    · intro t ht
      rcases mem_append.mp ht with ht | ht
      · exact h.traced.begun t ht
      · exact (mem_singleton.mp ht).le
    · rw [henv]
      exact ⟨⟨rfl, rfl⟩, rfl, rfl, rfl⟩
  · exact h

/-- The first sector of the bank is erased. -/
theorem confined_onImageSize (h : Confined P dev s) (data : List UInt8) :
    (onImageSize P data s).Confined P dev := by
  rw [onImageSize]
  split_ifs with hstate hsize
  · exact h.traced
  · exact h.traced
  obtain ⟨hbank, herase, hcur, hbuf⟩ := h.phase.modeGet (not_not.mp hstate)
  have hdev := inactiveBank_le P.running
  have hroom : flashWriteSize ≤ (inactiveBank P.running).2 := by
    rw [inactiveBank]
    split <;> decide
  have hmax : flashTotalSize < 2 ^ 32 := by decide
  have hnew := hbank.newImgAddr
  have htotal := hbank.totalBankSize
  have hwrap : u32 (s.env.eraseStartAddr + flashWriteSize) =
      s.env.eraseStartAddr + flashWriteSize := u32_of_lt (by omega)
  have herased : Traced P dev (s.erase P s.env.eraseStartAddr) :=
    h.traced.erase (by omega) (by omega)
  rw [hwrap]
  refine ⟨herased.congr rfl rfl rfl, nofun, nofun, fun _ => ⟨⟨hnew, htotal⟩, ?_, ?_, ?_, ?_, ?_⟩⟩
  · dsimp only
    omega
  · dsimp only
    omega
  · rw [hbuf]
    exact Nat.zero_le _
  · have hcov : Covered s.issued s.begun s.env.newImgAddr s.env.eraseStartAddr := by
      intro x hx hx'
      omega
    exact hcov.erase h.traced.begun
  · intro hrel
    have hblank : Blank s.dev.flash (s.env.newImgAddr + s.env.curOffset)
        (s.env.eraseStartAddr - (s.env.newImgAddr + s.env.curOffset)) := by
      intro x hx hx'
      omega
    have hbehind := blank_erase_behind hrel (by omega) (by omega) hblank
    exact hbehind

/-- The buffer is allocated. -/
theorem confined_onStartDfu (h : Confined P dev s) (a : Answers) :
    (onStartDfu a s).Confined P dev := by
  rw [onStartDfu]
  split_ifs with hstate
  · exact h.traced
  · exact h.traced.congr rfl rfl rfl
  · exact h.traced.congr rfl rfl rfl
  · have hf := h.phase.transfer (Or.inl (not_not.mp hstate))
    exact ⟨h.traced.congr rfl rfl rfl, nofun, nofun, fun _ =>
      hf.congr rfl rfl rfl rfl rfl rfl rfl hf.buffer⟩

/-- The digests are compared. -/
theorem confined_onVerification (h : Confined P dev s) (data : List UInt8) :
    (onVerification P data s).Confined P dev := by
  rw [onVerification]
  dsimp only
  split_ifs
  · exact h.traced
  · exact h.traced.congr rfl rfl rfl
  · exact Traced.confined_of_late (h.traced.congr rfl rfl rfl) rfl

theorem confined_onReboot (h : Confined P dev s) : (onReboot s).Confined P dev := by
  rw [onReboot]
  split_ifs
  · exact h.traced
  · exact Traced.confined_of_late (h.traced.congr rfl rfl rfl) rfl

/-- A block is accepted in the bank, or it is dropped. -/
theorem confined_onCrcCheck (h : Confined P dev s) (a : Answers) (data : List UInt8)
    (hfit : s.env.state = .dfuStarted → crc16 s.env.tempBuf 0 = remoteCrc data →
      s.env.eraseStartAddr + flashWriteSize ≤ s.env.newImgAddr + s.env.totalBankSize) :
    (onCrcCheck P a data s).Confined P dev := by
  rw [onCrcCheck]
  dsimp only
  split_ifs with hstate hcrc hdone
  · exact h.traced
  · have hstarted := not_not.mp hstate
    obtain ⟨ht, -⟩ := confined_acceptBlock h.traced (h.phase.transfer (Or.inr hstarted)) a
      (hfit hstarted hcrc)
    exact Traced.confined_of_late (ht.congr rfl rfl rfl) rfl
  · have hstarted := not_not.mp hstate
    obtain ⟨ht, hf⟩ := confined_acceptBlock h.traced (h.phase.transfer (Or.inr hstarted)) a
      (hfit hstarted hcrc)
    have hkeep : (acceptBlock P a s).env.state = .dfuStarted := hstarted
    exact ⟨ht, fun hs => absurd (hs.symm.trans hkeep) nofun,
      fun hs => absurd (hs.symm.trans hkeep) nofun, fun _ => hf⟩
  · have hstarted := not_not.mp hstate
    have hf := h.phase.transfer (Or.inr hstarted)
    have hdropped : Confined P dev { s with env := { s.env with tempBuf := [] } } :=
      ⟨h.traced.congr rfl rfl rfl, fun hs => absurd (hs.symm.trans hstarted) nofun,
        fun hs => absurd (hs.symm.trans hstarted) nofun, fun _ =>
        hf.congr rfl rfl rfl rfl rfl rfl rfl (Nat.zero_le _)⟩
    exact hdropped.tx _ _

/-- The opcode of `DFU_OPCODE_CRC_CHECK`. -/
theorem eq_six_of_dfuOpcode {b : UInt8} (h : dfuOpcode b = some .crcCheck) : b = 6 := by
  have hsix : ∀ n < 7, [DfuOpcode.mode, .imageSize, .startDfu, .verification, .reboot, .reset,
      .crcCheck][n]? = some .crcCheck → n = 6 := by decide
  exact UInt8.toNat_inj.mp (hsix _ (List.getElem?_eq_some_iff.mp h).1 h)

/-- **A control write stays in the bank**, when a block it accepts leaves room for one sector
more. -/
theorem confined_control (h : Confined P dev s) (a : Answers) (behind : UInt8)
    (data : List UInt8) (hok : Event.Contained s (.controlWrite a behind data)) :
    Confined P dev (appDfuSrvControlCb P a behind data s) := by
  refine Outcome.Confined.finish ?_ _
  rw [controlSwitch]
  cases hop : dfuOpcode (data.headD behind) with
  | none => exact h.traced
  | some op =>
    dsimp only
    split_ifs with hlen
    · exact h.traced
    cases op with
    | mode => exact confined_onMode h data
    | imageSize => exact confined_onImageSize h data
    | startDfu => exact confined_onStartDfu h a
    | verification => exact confined_onVerification h data
    | reboot => exact confined_onReboot h
    | reset => exact h.traced.reset
    | crcCheck =>
      refine confined_onCrcCheck h a data fun hstarted hcrc => ?_
      have hthree : data.length = 3 := not_not.mp hlen
      obtain ⟨b, rest, rfl⟩ := exists_cons_of_length_eq_add_one hthree
      exact hok ⟨hstarted, hthree, congrArg some (eq_six_of_dfuOpcode hop), hcrc⟩

/-- Bytes that do not fit the buffer end the transfer. -/
theorem confined_data (h : Confined P dev s) (data : List UInt8) :
    Confined P dev (appDfuSrvDataCb data s) := by
  rw [appDfuSrvDataCb]
  split_ifs with hstate hlen
  · exact h.traced.reset
  · exact (h.tx _ _).traced.reset
  · have hstarted := not_not.mp hstate
    have hf := h.phase.transfer (Or.inr hstarted)
    refine ⟨h.traced.congr rfl rfl rfl, fun hs => ?_, fun hs => ?_, fun _ =>
      hf.congr rfl rfl rfl rfl rfl rfl rfl ?_⟩
    · exact absurd (hs.symm.trans hstarted) nofun
    · exact absurd (hs.symm.trans hstarted) nofun
    · rw [length_append]
      exact not_lt.mp hlen

theorem confined_ind (h : Confined P dev s) (ok : Bool) :
    Confined P dev (appDfuSrvIndCb ok s) := by
  rw [appDfuSrvIndCb]
  split_ifs
  · exact Traced.confined_of_late (h.traced.congr rfl rfl rfl) rfl
  · exact h

/-- The flags of the images are no part of the flash that is updated. -/
theorem Traced.setFlag (h : Traced P dev s) (hlate : s.env.state.late = true) :
    Confined P dev (appDfuSrvSetFlag P s).2 := by
  rw [appDfuSrvSetFlag]
  split_ifs
  · exact Traced.confined_of_late (h.congr rfl rfl rfl) hlate
  · exact Traced.reset (h.congr rfl rfl rfl)

theorem confined_disconn (h : Confined P dev s) : Confined P dev (appDfuSrvDisconnCb P s) := by
  rw [appDfuSrvDisconnCb]
  split_ifs with hstate
  · exact h.traced.reset
  · have hflags := h.traced.setFlag (congrArg DfuState.late (not_not.mp hstate))
    dsimp only
    split
    · exact hflags.congr rfl rfl rfl rfl
    · exact hflags

/-- **The server stays confined** by every event that meets the condition. -/
theorem confined_step {i : Event} (h : Confined P dev s) (hok : i.Contained s)
    (hstep : step P i s = some s') : Confined P dev s' := by
  rw [step] at hstep
  split_ifs at hstep
  cases hstep
  cases i with
  | controlWrite a behind data => exact confined_control h a behind data hok
  | dataWrite data => exact confined_data h data
  | indSent ok => exact confined_ind h ok
  | timeout => exact (h.tx _ _).traced.reset
  | disconn => exact confined_disconn h

theorem confined_init (P : Platform) (dev : Dev) (flags : Ota.ImgFlags) :
    Confined P dev (dfuSrvInit dev flags) where
  traced := ⟨nofun, nofun, fun _ _ => rfl, nofun⟩
  phase := ⟨fun _ => rfl, nofun, nofun⟩

theorem Confined.contained (h : Confined P dev s) : Contained P dev s where
  inside := h.traced.inside
  erased := h.traced.erased
  kept := h.traced.kept
  blank := by
    intro hrel hs
    have hf := h.phase.transfer (Or.inr hs)
    have hlow := hf.low
    have hbuf := hf.buffer
    exact (hf.blank hrel).mono (le_refl _) (by omega)

/-- The SHA-256 of the bytes 1, 2 and 3. -/
def digest123 : List UInt8 :=
  [0x03, 0x90, 0x58, 0xC6, 0xF2, 0xC0, 0xCB, 0x49, 0x2C, 0x53, 0x3B, 0x0A, 0x4D, 0x14, 0xEF, 0x77,
    0xCC, 0x0F, 0x78, 0xAB, 0xCC, 0xCE, 0xD5, 0x28, 0x7D, 0x84, 0xA1, 0xA2, 0x01, 0x1C, 0xFB, 0x81]

/-- A platform on which nothing fails, as far as the image of the bytes 1, 2 and 3 is concerned. -/
def platform123 (running : ℕ) : Platform :=
  ⟨Ota.okRom, Ota.maskBootRom, fun _ => digest123, running⟩

/-- A flash that has never been written. -/
def blankDev : Dev := ⟨fun _ => blank, []⟩

/-- A control write for which every call succeeds. -/
def command (data : List UInt8) : Event := .controlWrite ⟨true, true, none⟩ 0 data

/-- The mode, the size of an image of three bytes, and the start. -/
def startThree : List Event := [command [0, 0], command [1, 3, 0, 0, 0], command [2]]

/-- Where empty blocks leave the server: nothing has changed but the erase frontier. -/
structure Emptied (s s' : DfuSrv) (sectors : ℕ) : Prop where
  env : s'.env =
    { s.env with eraseStartAddr := s.env.eraseStartAddr + sectors * flashWriteSize }
  rebooted : s'.rebooted = s.rebooted
  issued : s.issued <+: s'.issued
  erased : ∀ k < sectors,
    Prim.erase (s.env.eraseStartAddr + k * flashWriteSize) flashWriteSize ∈ s'.issued

/-- An empty block is accepted, and one sector erased. -/
theorem step_emptyBlock (hstate : s.env.state = .dfuStarted) (hbuf : s.env.tempBuf = [])
    (hcur : s.env.curOffset < 2 ^ 32) (hsize : s.env.curOffset ≠ s.env.otaImgSize)
    (hlive : s.rebooted = false) (herase : s.env.eraseStartAddr + flashWriteSize < 2 ^ 32) :
    ∃ s', step P (command [6, 0, 0]) s = some s' ∧ Emptied s s' 1 := by
  have hcrc : crc16 s.env.tempBuf 0 = remoteCrc [6, 0, 0] := by rw [hbuf]; rfl
  have henv : (acceptBlock P ⟨true, true, none⟩ s).env =
      { s.env with eraseStartAddr := s.env.eraseStartAddr + flashWriteSize } := by
    simp only [acceptBlock, hbuf, rawFlashRead_nil, length_nil, add_zero, u32_of_lt hcur,
      u32_of_lt herase, append_nil]
  have hcheck : onCrcCheck P ⟨true, true, none⟩ [6, 0, 0] s =
      .done (acceptBlock P ⟨true, true, none⟩ s) := by
    rw [onCrcCheck, if_neg (not_not_intro hstate), if_pos hcrc]
    dsimp only
    rw [henv, if_neg hsize]
  have hstep : step P (command [6, 0, 0]) s =
      some ((acceptBlock P ⟨true, true, none⟩ s).tx 6 .noError) := by
    rw [step, if_neg (by rw [hlive]; nofun)]
    refine congrArg some ?_
    change (onCrcCheck P ⟨true, true, none⟩ [6, 0, 0] s).finish 6 = _
    rw [hcheck]
    rfl
  refine ⟨_, hstep, ⟨?_, rfl, ?_, fun k hk => ?_⟩⟩
  · exact henv
  · exact (prefix_append _ _).trans (prefix_append _ _)
  · have hzero : k = 0 := by omega
    rw [hzero, zero_mul, add_zero]
    exact mem_append_right _ (mem_singleton_self _)

theorem Emptied.trans {t : DfuSrv} {m n : ℕ} (h : Emptied s t m) (h' : Emptied t s' n) :
    Emptied s s' (m + n) where
  env := by
    rw [h'.env, h.env, Nat.add_mul, ← Nat.add_assoc]
  rebooted := h'.rebooted.trans h.rebooted
  issued := h.issued.trans h'.issued
  erased := by
    intro k hk
    rcases lt_or_ge k m with hkm | hkm
    · exact h'.issued.subset (h.erased k hkm)
    · have hlater := h'.erased (k - m) (by omega)
      rw [h.env] at hlater
      rwa [Nat.add_assoc, ← Nat.add_mul, Nat.add_sub_cancel' hkm] at hlater

/-- **Empty blocks have as many sectors erased as the peer likes.** -/
theorem run_emptyBlocks (n : ℕ) (hstate : s.env.state = .dfuStarted) (hbuf : s.env.tempBuf = [])
    (hcur : s.env.curOffset < 2 ^ 32) (hsize : s.env.curOffset ≠ s.env.otaImgSize)
    (hlive : s.rebooted = false) (herase : s.env.eraseStartAddr + n * flashWriteSize < 2 ^ 32) :
    ∃ s', Machine.run (step P) (List.replicate n (command [6, 0, 0])) s = some s' ∧
      Emptied s s' n := by
  induction n generalizing s with
  | zero => exact ⟨s, rfl, by simp, rfl, prefix_rfl, nofun⟩
  | succ n ih =>
    rw [Nat.succ_mul] at herase
    obtain ⟨t, ht, hst⟩ := step_emptyBlock (P := P) hstate hbuf hcur hsize hlive (by omega)
    have henv := hst.env
    obtain ⟨u, hu, htu⟩ := ih (s := t) (by rw [henv]; exact hstate) (by rw [henv]; exact hbuf)
      (by rw [henv]; exact hcur) (by rw [henv]; exact hsize) (hst.rebooted.trans hlive)
      (by rw [henv]; dsimp only; omega)
    refine ⟨u, ?_, ?_⟩
    · rw [replicate_succ, Machine.run, ht]
      exact hu
    · rw [add_comm]
      exact hst.trans htu

end Dfu

end Gd32
