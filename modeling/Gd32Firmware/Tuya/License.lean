import Gd32Firmware.Tuya.Flash
import Gd32Firmware.Tuya.LicenseJson

/-!
# The license page

`tuyaopen_license.c` keeps the license of the device, a `uuid` and an `auzkey`, encrypted on a page
of its own. `tuyaopen_license_write` takes them from a JSON object, erases and writes the page,
reads it back, and has the flash controller protect it from then on; `tuyaopen_license_read` makes
a JSON object of what is on the page.

A write asks for the protection of the page first, but only the answer that the page is protected
stops it. When the answer is an error it erases the page, and then the lock, which asks again,
fails. `Tuya.failedWriteKeeps_iff` says when a write either succeeds or leaves the license that
was there.

The cryptographic unit and the routine of the ROM that derives its key are `Tuya.Cau`. What the
outside has to say during a call is in `Tuya.ReadEnv` and `Tuya.FmcEnv`.
-/

namespace Gd32

open List Option

variable {record : AuthorizeFlashRecord} {v : List UInt8}

variable {key : CString} {n : ℕ} {authkey uuid : List UInt8} {cau : Cau} {data : Option CObject}
  {s : LicenseState} {rom : Rom}

namespace Tuya

open NorFlash Delimited

/-! ### Encryption -/

/-- `alg_dir`. -/
inductive CauDir where
  | encrypt
  | decrypt

/-- The cryptographic unit and the derivation of its key; `none` is a failure. -/
structure Cau where
  symmKeyDerive : List UInt8 → Option (List UInt8)
  /-- `cau_aes_gcm` of a key, an initial vector, additional data and an input: the output and the
  tag. -/
  aesGcm : CauDir → List UInt8 → List UInt8 → List UInt8 → List UInt8 →
    Option (List UInt8 × List UInt8)

/-- Decryption inverts encryption: it yields the input and the same tag. -/
def Cau.Inverts (cau : Cau) : Prop :=
  ∀ key iv aad input output tag, input.length = 32 →
    cau.aesGcm .encrypt key iv aad input = some (output, tag) →
    output.length = 32 ∧ tag.length = 16 ∧
      cau.aesGcm .decrypt key iv aad output = some (input, tag)

def sAuthorizeAad : List UInt8 :=
  [0x74, 0x75, 0x79, 0x61, 0x2d, 0x75, 0x75, 0x69, 0x64, 0x61, 0x75, 0x74, 0x68, 0x6b, 0x65, 0x79]

def sAuthorizeGcmIv : List UInt8 :=
  [0x54, 0x75, 0x79, 0x61, 0x4f, 0x70, 0x65, 0x6e, 0x46, 0x69, 0x78, 0x65, 0x64, 0x49, 0x56, 0x31]

def authorizeGcmEncrypt (cau : Cau) (plain aad iv : List UInt8) :
    Except ℤ (List UInt8 × List UInt8) :=
  if 32 < plain.length then .error (-1) else
    match cau.symmKeyDerive aad with
    | none => .error (-2)
    | some key =>
      match cau.aesGcm .encrypt key iv aad (plain ++ List.replicate (32 - plain.length) 0) with
      | none => .error (-3)
      | some r => .ok r

def authorizeTagEqual (left right : List UInt8) (len : ℕ) : Bool :=
  (List.zipWith (· ^^^ ·) (left.take len) (right.take len)).foldl (· ||| ·) 0 = 0

def authorizeGcmDecrypt (cau : Cau) (cipher aad iv tag : List UInt8) (outLen : ℕ) :
    Except OprtErr (List UInt8) :=
  if 32 < outLen then .error .invalidParm else
    match cau.symmKeyDerive aad with
    | none => .error .comError
    | some key =>
      match cau.aesGcm .decrypt key iv aad cipher with
      | none => .error .comError
      | some (plain, calculatedTag) =>
        if authorizeTagEqual tag calculatedTag 16 then .ok (plain.take outLen)
        else .error .comError

/-! ### Reading -/

/-- `authorize_flash_record_t`. -/
structure AuthorizeFlashRecord where
  uuidCipher : List UInt8
  uuidTag : List UInt8
  authkeyCipher : List UInt8
  authkeyTag : List UInt8
  aad : List UInt8
  iv : List UInt8

/-- The bytes of a record. -/
def AuthorizeFlashRecord.bytes (r : AuthorizeFlashRecord) : List UInt8 :=
  r.uuidCipher ++ (r.uuidTag ++ (r.authkeyCipher ++ (r.authkeyTag ++ (r.aad ++ r.iv))))

/-- The record in some bytes. -/
def AuthorizeFlashRecord.ofBytes (bs : List UInt8) : AuthorizeFlashRecord where
  uuidCipher := bs.take 32
  uuidTag := (bs.drop 32).take 16
  authkeyCipher := (bs.drop 48).take 32
  authkeyTag := (bs.drop 80).take 16
  aad := (bs.drop 96).take 16
  iv := (bs.drop 112).take 16

/-- `sizeof(authorize_flash_record_t)`. -/
def sizeofRecord : ℕ := 128

/-- What `snprintf` makes of `LICENSE_JSON_FORMAT`. -/
def licenseJson (authkey uuid : List UInt8) : List UInt8 :=
  [123, 34, 97, 117, 122, 107, 101, 121, 34, 58, 34] ++ authkey ++
    [34, 44, 34, 117, 117, 105, 100, 34, 58, 34] ++ uuid ++ [34, 125]

theorem length_fieldString_le (field : List UInt8) : (fieldString field).length ≤ field.length :=
  (takeWhile_sublist _).length_le

/-- The license of `s_authorize_authkey` and `s_authorize_uuid`, in a block of the heap. -/
def licenseData (authkey uuid : List UInt8) : CObject where
  bytes := licenseJson (fieldString (authkey.take 32)) (fieldString (uuid.take 20))
  length_lt := by
    have ha := length_fieldString_le (authkey.take 32)
    have hu := length_fieldString_le (uuid.take 20)
    simp only [length_take] at ha hu
    simp only [licenseJson, length_append, length_cons, length_nil]
    omega

/-- What happens during a read. -/
structure ReadEnv where
  /-- What `rom_flash_read` leaves in the buffer if it fails. -/
  failed : Option (List UInt8)
  mallocOk : Bool

/-- `tuyaopen_license_read`, with image `running` in use: the object returned. `snprintf` does not
fail. -/
def tuyaopenLicenseRead (cau : Cau) (running : ℕ) (env : ReadEnv) (f : Flash) :
    Except OprtErr CObject :=
  match tklFlashRead running tuyaFlashLicenseStart env.failed f (List.replicate sizeofRecord 0) with
  | (.error _, _) => .error .comError
  | (.ok (), bs) =>
    let record := AuthorizeFlashRecord.ofBytes bs
    match authorizeGcmDecrypt cau record.uuidCipher record.aad record.iv record.uuidTag 20 with
    | .error _ => .error .comError
    | .ok uuid =>
      match
        authorizeGcmDecrypt cau record.authkeyCipher record.aad record.iv record.authkeyTag 32 with
      | .error _ => .error .comError
      | .ok authkey =>
        if env.mallocOk then .ok (licenseData authkey uuid) else .error .mallocFailed

/-! ### Write protection -/

/-- The page of the license. -/
def licensePage : UInt32 := UInt32.ofNat (tuyaFlashLicenseStart / 0x1000)

/-- What `tuya_license_protection_status_get` returns. -/
inductive ProtectionStatus where
  /-- `1`: the page is protected, and no other. -/
  | locked
  /-- `0`: no page is protected. -/
  | unlocked
  /-- `OPRT_COM_ERROR`: other pages are protected. -/
  | comError
  deriving DecidableEq

/-- `tuya_license_protection_status_get`, of the register `FMC_OBWRP1`. -/
def tuyaLicenseProtectionStatusGet (obwrp1 : UInt32) : ProtectionStatus :=
  let protectedStart := obwrp1 &&& 0x3FF
  let protectedEnd := (obwrp1 &&& 0x3FF0000) >>> 16
  if protectedEnd < protectedStart then .unlocked
  else if protectedStart = licensePage ∧ protectedEnd = licensePage then .locked
  -- a larger region with the page in it, or an unrelated one
  else .comError

/-- What the flash controller does while the option bytes are modified. -/
structure FmcEnv where
  /-- `fmc_ready_wait` returns `FMC_READY` before the modification. -/
  readyBefore : Bool
  readyAfter : Bool
  /-- What `FMC_OBWRP1` is when a value has been written to it. -/
  obwrp1 : UInt32 → UInt32

/-- `ob_write_protection_config` of `OBWRP_INDEX1`: it ends with `FMC_READY`, and the register. -/
def obWriteProtectionConfig (fmc : FmcEnv) (spage epage obwrp1 : UInt32) : Bool × UInt32 :=
  if fmc.readyBefore then (fmc.readyAfter, fmc.obwrp1 (spage ||| epage <<< 16))
  else (false, obwrp1)

def tuyaLicenseLock (fmc : FmcEnv) (obwrp1 : UInt32) : Except OprtErr Unit × UInt32 :=
  match tuyaLicenseProtectionStatusGet obwrp1 with
  | .comError => (.error .comError, obwrp1)
  | .locked => (.ok (), obwrp1)
  | .unlocked =>
    let ob := obWriteProtectionConfig fmc licensePage licensePage obwrp1
    if !ob.1 then (.error .comError, ob.2)
    else if tuyaLicenseProtectionStatusGet ob.2 ≠ .locked then (.error .comError, ob.2)
    else (.ok (), ob.2)

/-! ### Writing -/

/-- The flash, and the register with the protected pages. -/
structure LicenseState where
  dev : Dev
  obwrp1 : UInt32

/-- `__license_json_get_string` into a cleared array of `n` bytes. -/
def jsonString (json : CObject) (key : CString) (n : ℕ) : ℤ × List UInt8 :=
  (licenseJsonGetString json key (List.replicate n 0)).get (isSome_licenseJsonGetString ..)

/-- `"uuid"`. -/
def uuidKey : CString := ⟨[117, 117, 105, 100], by decide⟩

/-- `"auzkey"`. -/
def auzkeyKey : CString := ⟨[97, 117, 122, 107, 101, 121], by decide⟩

/-- The record of a write. -/
def authorizeRecord (cau : Cau) (uuid authkey : List UInt8) : Except ℤ AuthorizeFlashRecord :=
  match authorizeGcmEncrypt cau uuid sAuthorizeAad sAuthorizeGcmIv with
  | .error e => .error e
  | .ok (uuidCipher, uuidTag) =>
    match authorizeGcmEncrypt cau authkey sAuthorizeAad sAuthorizeGcmIv with
    | .error e => .error e
    | .ok (authkeyCipher, authkeyTag) =>
      .ok ⟨uuidCipher, uuidTag, authkeyCipher, authkeyTag, sAuthorizeAad, sAuthorizeGcmIv⟩

/-- What has been read back is what has been written. -/
def readbackOk (readData : CObject) (uuid authkey : ℤ × List UInt8) : Bool :=
  let readUuid := jsonString readData uuidKey 21
  let readAuthkey := jsonString readData auzkeyKey 33
  readUuid.1 = uuid.1 && readAuthkey.1 = authkey.1 &&
    readUuid.2.take uuid.1.toNat = uuid.2.take uuid.1.toNat &&
    readAuthkey.2.take authkey.1.toNat = authkey.2.take authkey.1.toNat

/-- The end of `tuyaopen_license_write`, when the page has been written. -/
def verifyAndLock (cau : Cau) (running : ℕ) (env : ReadEnv) (fmc : FmcEnv)
    (uuid authkey : ℤ × List UInt8) (s : LicenseState) : Except OprtErr Unit × LicenseState :=
  match tuyaopenLicenseRead cau running env s.dev.flash with
  | .error _ => (.error .comError, s)
  | .ok readData =>
    if !readbackOk readData uuid authkey then (.error .comError, s) else
      match tuyaLicenseLock fmc s.obwrp1 with
      | (.error _, obwrp1) => (.error .comError, { s with obwrp1 := obwrp1 })
      | (.ok (), obwrp1) => (.ok (), { s with obwrp1 := obwrp1 })

/-- `tuyaopen_license_write` from the erase on. -/
def eraseAndWrite (rom : Rom) (cau : Cau) (running : ℕ) (env : ReadEnv) (fmc : FmcEnv)
    (uuid authkey : ℤ × List UInt8) (record : AuthorizeFlashRecord) (s : LicenseState) :
    Except OprtErr Unit × LicenseState :=
  let e := rawFlashErase rom tuyaFlashLicenseStart 0x1000 s.dev
  if e.1 ≠ 0 then (.error .comError, { s with dev := e.2 }) else
    let w := rawFlashWrite rom tuyaFlashLicenseStart record.bytes e.2
    if w.1 ≠ 0 then (.error .comError, { s with dev := w.2 })
    else verifyAndLock cau running env fmc uuid authkey { s with dev := w.2 }

/-- `tuyaopen_license_write`; a record is not larger than the page. -/
def tuyaopenLicenseWrite (rom : Rom) (cau : Cau) (running : ℕ) (env : ReadEnv) (fmc : FmcEnv)
    (data : Option CObject) (s : LicenseState) : Except OprtErr Unit × LicenseState :=
  match data with
  | none => (.error .invalidParm, s)
  | some data =>
    if data.bytes.length = 0 then (.error .invalidParm, s)
    else if tuyaLicenseProtectionStatusGet s.obwrp1 = .locked then (.error .comError, s)
    else
      let uuid := jsonString data uuidKey 21
      let authkey := jsonString data auzkeyKey 33
      if uuid.1 ≤ 0 ∨ authkey.1 ≠ 32 then (.error .invalidParm, s) else
        match
          authorizeRecord cau (uuid.2.take uuid.1.toNat) (authkey.2.take authkey.1.toNat) with
        | .error _ => (.error .comError, s)
        | .ok record => eraseAndWrite rom cau running env fmc uuid authkey record s

/-! ### What a JSON object yields -/

theorem jsonString_eq (json : CObject) (hn : 2 ≤ n) (hk : key.len ≠ 0) :
    jsonString json key n = answer (List.replicate n 0) (valueOf json.bytes key) := by
  have h := licenseJsonGetString_eq json key (List.replicate n 0)
  rw [if_neg (by rw [length_replicate]; omega)] at h
  simp only [jsonString, h, get_some]

/-- A value has no quote. -/
theorem quote_not_mem_of_valueOf {json : List UInt8}
    (h : valueOf json key = some v) : 34 ∉ v := by
  rw [valueOf, bind_eq_some_iff] at h
  obtain ⟨s, -, h⟩ := h
  rw [valueBehind, bind_eq_some_iff] at h
  obtain ⟨s, -, h⟩ := h
  rw [bind_eq_some_iff] at h
  obtain ⟨s, -, h⟩ := h
  rw [upToQuote] at h
  split_ifs at h
  cases h
  exact fun hmem => by simpa using mem_takeWhile_imp hmem

/-- The pieces of a license. -/
theorem licenseJson_eq (authkey uuid : List UInt8) :
    licenseJson authkey uuid = [123] ++ delimit 34
      [auzkeyKey.bytes, [58], authkey, [44], uuidKey.bytes, [58], uuid, [125]] := by
  simp [licenseJson, auzkeyKey, uuidKey]

theorem valueOf_licenseJson (ha : 34 ∉ authkey) (hu : 34 ∉ uuid) :
    valueOf (licenseJson authkey uuid) auzkeyKey = some authkey ∧
      (authkey ≠ uuidKey.bytes → valueOf (licenseJson authkey uuid) uuidKey = some uuid) := by
  have hclean : Clean 34
      [auzkeyKey.bytes, [58], authkey, [44], uuidKey.bytes, [58], uuid, [125]] := by
    simp [Clean, ha, hu, auzkeyKey, uuidKey]
  have hval := valueOf_delimit (by decide) hclean (licenseJson_eq authkey uuid)
  have hcolon : isColon [58] = true := rfl
  constructor
  · rw [hval, cut_of_not_mem (by decide), afterPieces_cons, if_pos rfl, bind_some,
      valuePiece, if_pos hcolon]
  · intro hne
    rw [hval, cut_of_not_mem (by decide), afterPieces_cons, if_neg (by decide), afterPieces_cons,
      if_neg (by decide), afterPieces_cons, if_neg (Ne.symm hne), afterPieces_cons,
      if_neg (by decide), afterPieces_cons, if_pos rfl, bind_some, valuePiece,
      if_pos hcolon]

/-! ### What is on the page -/

theorem authorizeTagEqual_self (tag : List UInt8) (len : ℕ) :
    authorizeTagEqual tag tag len = true := by
  rw [authorizeTagEqual, decide_eq_true_eq]
  induction tag.take len with
  | nil => rfl
  | cons b bs ih =>
    rw [zipWith_cons_cons, foldl_cons, UInt8.xor_self, UInt8.zero_or]
    exact ih

/-- What is encrypted is decrypted. -/
theorem authorizeGcmDecrypt_encrypt (hcau : cau.Inverts)
    {plain aad iv cipher tag : List UInt8}
    (h : authorizeGcmEncrypt cau plain aad iv = .ok (cipher, tag)) {outLen : ℕ}
    (hout : outLen ≤ 32) :
    cipher.length = 32 ∧ tag.length = 16 ∧
      authorizeGcmDecrypt cau cipher aad iv tag outLen =
        .ok ((plain ++ List.replicate (32 - plain.length) 0).take outLen) := by
  rw [authorizeGcmEncrypt] at h
  split at h
  · cases h
  next hlen =>
  rcases hkey : cau.symmKeyDerive aad with - | key
  · rw [hkey] at h
    cases h
  rw [hkey] at h
  dsimp only at h
  split at h
  · cases h
  next r hr =>
  cases h
  obtain ⟨hc, ht, hd⟩ := hcau key iv aad _ _ _
    (by rw [length_append, length_replicate]; omega) hr
  refine ⟨hc, ht, ?_⟩
  rw [authorizeGcmDecrypt, if_neg (by omega), hkey]
  dsimp only
  rw [hd]
  dsimp only
  rw [authorizeTagEqual_self, if_pos rfl]

/-- The record is in its bytes. -/
theorem AuthorizeFlashRecord.ofBytes_bytes {r : AuthorizeFlashRecord}
    (huc : r.uuidCipher.length = 32) (hut : r.uuidTag.length = 16)
    (hac : r.authkeyCipher.length = 32) (hat : r.authkeyTag.length = 16)
    (haad : r.aad.length = 16) (hiv : r.iv.length = 16) :
    AuthorizeFlashRecord.ofBytes r.bytes = r := by
  obtain ⟨uc, ut, ac, at', aad, iv⟩ := r
  have h32 : (uc ++ (ut ++ (ac ++ (at' ++ (aad ++ iv))))).drop 32 =
      ut ++ (ac ++ (at' ++ (aad ++ iv))) := drop_left' huc
  have h48 : (ut ++ (ac ++ (at' ++ (aad ++ iv)))).drop 16 = ac ++ (at' ++ (aad ++ iv)) :=
    drop_left' hut
  have h80 : (ac ++ (at' ++ (aad ++ iv))).drop 32 = at' ++ (aad ++ iv) := drop_left' hac
  have h96 : (at' ++ (aad ++ iv)).drop 16 = aad ++ iv := drop_left' hat
  rw [AuthorizeFlashRecord.bytes, AuthorizeFlashRecord.ofBytes]
  rw [show (48 : ℕ) = 32 + 16 from rfl, show (80 : ℕ) = 32 + 16 + 32 from rfl,
    show (96 : ℕ) = 32 + 16 + 32 + 16 from rfl, show (112 : ℕ) = 32 + 16 + 32 + 16 + 16 from rfl]
  simp only [← drop_drop, h32, h48, h80, h96, take_left' huc, take_left' hut,
    take_left' hac, take_left' hat, take_left' haad, drop_left' haad,
    take_of_length_le hiv.le]

/-- The license on the page, if there is one. -/
def licenseOf (cau : Cau) (f : Flash) : Option CObject :=
  let record := AuthorizeFlashRecord.ofBytes (read f tuyaFlashLicenseStart sizeofRecord)
  match authorizeGcmDecrypt cau record.uuidCipher record.aad record.iv record.uuidTag 20,
    authorizeGcmDecrypt cau record.authkeyCipher record.aad record.iv record.authkeyTag 32 with
  | .ok uuid, .ok authkey => some (licenseData authkey uuid)
  | _, _ => none

/-- The page is read as it is. -/
theorem tklFlashRead_license (running : ℕ) (f : Flash) :
    tklFlashRead running tuyaFlashLicenseStart none f (List.replicate sizeofRecord 0) =
      (.ok (), read f tuyaFlashLicenseStart sizeofRecord) := by
  have hlen : (List.replicate sizeofRecord (0 : UInt8)).length = sizeofRecord :=
    length_replicate
  have hconsts : tuyaFlashLicenseStart = 0x3FA000 ∧ reImg1End = 0x3CA000 ∧
      flashTotalSize = 0x400000 ∧ sizeofRecord = 128 := ⟨rfl, rfl, rfl, rfl⟩
  have h := tklFlashRead_of_reImg1End_le running f
    (show reImg1End ≤ tuyaFlashLicenseStart by omega) (List.replicate sizeofRecord 0) (by omega)
    (by omega)
  rwa [hlen] at h

/-- A read yields the license, unless the ROM fails it or there is no block of the heap. -/
theorem tuyaopenLicenseRead_eq (cau : Cau) (running : ℕ) (env : ReadEnv) (f : Flash) :
    tuyaopenLicenseRead cau running env f =
      if env.failed.isSome then .error .comError else
        match licenseOf cau f with
        | none => .error .comError
        | some json => if env.mallocOk then .ok json else .error .mallocFailed := by
  unfold tuyaopenLicenseRead
  rcases hf : env.failed with - | left
  · have hread := tklFlashRead_license running f
    rcases hr : tklFlashRead running tuyaFlashLicenseStart none f
      (List.replicate sizeofRecord 0) with ⟨r, bs⟩
    rw [hr, Prod.mk.injEq] at hread
    obtain ⟨rfl, hbs⟩ := hread
    rw [licenseOf, ← hbs]
    dsimp only
    generalize AuthorizeFlashRecord.ofBytes bs = r
    rcases authorizeGcmDecrypt cau r.uuidCipher r.aad r.iv r.uuidTag 20 with e | uuid
    · rfl
    · rcases authorizeGcmDecrypt cau r.authkeyCipher r.aad r.iv r.authkeyTag 32 with e | authkey
      · rfl
      · rfl
  · have h := tklFlashRead_failed running tuyaFlashLicenseStart left f
      (List.replicate sizeofRecord 0)
    rcases hr : tklFlashRead running tuyaFlashLicenseStart (some left) f
      (List.replicate sizeofRecord 0) with ⟨r, bs⟩
    rw [hr] at h
    subst h
    rfl

/-- All reads are the same if the license is. -/
theorem reads_eq_iff (cau : Cau) (running : ℕ) (f g : Flash) :
    (∀ env, tuyaopenLicenseRead cau running env f = tuyaopenLicenseRead cau running env g) ↔
      licenseOf cau f = licenseOf cau g := by
  constructor
  · intro h
    have hgood := h ⟨none, true⟩
    rw [tuyaopenLicenseRead_eq, tuyaopenLicenseRead_eq] at hgood
    rcases hf : licenseOf cau f with - | j <;> rcases hg : licenseOf cau g with - | k <;>
      rw [hf, hg] at hgood <;> simp_all
  · intro h env
    rw [tuyaopenLicenseRead_eq, tuyaopenLicenseRead_eq, h]

theorem fieldString_append_zeros {bs : List UInt8} {k : ℕ} (hk : bs.length ≤ k)
    (hn : k ≤ bs.length + n) :
    fieldString ((bs ++ List.replicate n 0).take k) = fieldString bs := by
  obtain ⟨m, hm⟩ : ∃ m, (bs ++ List.replicate n (0 : UInt8)).take k = bs ++ List.replicate m 0 := by
    refine ⟨k - bs.length, ?_⟩
    rw [take_append, take_of_length_le hk, take_replicate,
      Nat.min_eq_left (by omega)]
  have hzero : (List.replicate m (0 : UInt8)).takeWhile (· ≠ 0) = [] := by
    cases m <;> simp [replicate_succ]
  rw [hm, fieldString, fieldString, takeWhile_append]
  split_ifs with hall
  · rw [hzero, append_nil, (List.takeWhile_prefix _).eq_of_length hall]
  · rfl

/-- **What has been written is on the page.** -/
theorem licenseOf_written (hcau : cau.Inverts)
    (h : authorizeRecord cau uuid authkey = .ok record)
    (hu : uuid.length ≤ 20) (ha : authkey.length = 32) (f : Flash) :
    record.bytes.length = sizeofRecord ∧
      licenseOf cau (program (erase f tuyaFlashLicenseStart 0x1000) tuyaFlashLicenseStart
        record.bytes) = some (licenseData authkey uuid) := by
  rw [authorizeRecord] at h
  rcases hue : authorizeGcmEncrypt cau uuid sAuthorizeAad sAuthorizeGcmIv with e | ⟨uc, ut⟩
  · rw [hue] at h
    cases h
  rcases hae : authorizeGcmEncrypt cau authkey sAuthorizeAad sAuthorizeGcmIv with e | ⟨ac, at'⟩
  · rw [hue, hae] at h
    cases h
  rw [hue, hae] at h
  cases h
  obtain ⟨hucl, hutl, hud⟩ := authorizeGcmDecrypt_encrypt hcau hue (show 20 ≤ 32 by omega)
  obtain ⟨hacl, hatl, had⟩ := authorizeGcmDecrypt_encrypt hcau hae (le_refl 32)
  have hlen : (AuthorizeFlashRecord.mk uc ut ac at' sAuthorizeAad sAuthorizeGcmIv).bytes.length =
      sizeofRecord := by
    simp only [AuthorizeFlashRecord.bytes, length_append, hucl, hutl, hacl, hatl]
    rfl
  refine ⟨hlen, ?_⟩
  have hread : read (program (erase f tuyaFlashLicenseStart 0x1000) tuyaFlashLicenseStart
      (AuthorizeFlashRecord.mk uc ut ac at' sAuthorizeAad sAuthorizeGcmIv).bytes)
      tuyaFlashLicenseStart sizeofRecord =
      (AuthorizeFlashRecord.mk uc ut ac at' sAuthorizeAad sAuthorizeGcmIv).bytes := by
    rw [← hlen]
    refine read_program_of_blank ((blank_erase f tuyaFlashLicenseStart 0x1000).mono le_rfl ?_)
    rw [hlen]
    decide
  rw [licenseOf, hread, AuthorizeFlashRecord.ofBytes_bytes hucl hutl hacl hatl rfl rfl]
  rw [hud, had]
  rw [Option.some.injEq, licenseData, licenseData]
  congr 2
  · rw [ha, Nat.sub_self, replicate_zero, append_nil, take_take, min_self]
  · rw [take_take, Nat.min_self, fieldString_append_zeros hu (by omega),
      take_of_length_le hu]

/-! ### What a write does -/

/-- The string that is found, in its array. -/
def inArray (v : List UInt8) (n : ℕ) : ℤ × List UInt8 :=
  (v.length, v ++ 0 :: (List.replicate n 0).drop (v.length + 1))

theorem jsonString_of_lt {json : CObject}
    (hk : key.len ≠ 0) (hn : 2 ≤ n) (h : valueOf json.bytes key = some v) (hv : v.length < n) :
    jsonString json key n = inArray v n := by
  rw [jsonString_eq json hn hk, h, answer_of_lt (by rwa [length_replicate])]
  rfl

theorem jsonString_of_le {json : CObject} (hk : key.len ≠ 0) (hn : 2 ≤ n)
    (h : ∀ v, valueOf json.bytes key = some v → n ≤ v.length) :
    jsonString json key n = (-1, List.replicate n 0) := by
  rw [jsonString_eq json hn hk, answer_of_le]
  simpa only [length_replicate] using h

theorem take_inArray (v : List UInt8) (n : ℕ) :
    (inArray v n).2.take (inArray v n).1.toNat = v := by
  rw [inArray, Int.toNat_natCast, take_left]

/-- A write gets to its erase: there is no license that is protected, the object has a `uuid` and an
`auzkey`, and they are encrypted. -/
structure Reaches (cau : Cau) (data : Option CObject) (s : LicenseState)
    (uuid authkey : List UInt8) : Prop where
  not_locked : tuyaLicenseProtectionStatusGet s.obwrp1 ≠ .locked
  values : ∃ d, data = some d ∧ valueOf d.bytes uuidKey = some uuid ∧
    valueOf d.bytes auzkeyKey = some authkey
  uuid_length : 0 < uuid.length ∧ uuid.length ≤ 20
  authkey_length : authkey.length = 32
  encrypts : ∃ record, authorizeRecord cau uuid authkey = .ok record

/-- A write that does not get to its erase changes nothing. -/
theorem write_of_not_reaches (rom : Rom) (running : ℕ) (env : ReadEnv) (fmc : FmcEnv)
    (h : ∀ uuid authkey, ¬Reaches cau data s uuid authkey) :
    ∃ e, tuyaopenLicenseWrite rom cau running env fmc data s = (.error e, s) := by
  rcases data with - | d
  · exact ⟨_, rfl⟩
  rw [tuyaopenLicenseWrite]
  by_cases hlen : d.bytes.length = 0
  · rw [if_pos hlen]
    exact ⟨_, rfl⟩
  by_cases hlocked : tuyaLicenseProtectionStatusGet s.obwrp1 = .locked
  · rw [if_neg hlen, if_pos hlocked]
    exact ⟨_, rfl⟩
  rw [if_neg hlen, if_neg hlocked]
  by_cases hparse : (jsonString d uuidKey 21).1 ≤ 0 ∨ (jsonString d auzkeyKey 33).1 ≠ 32
  · rw [if_pos hparse]
    exact ⟨_, rfl⟩
  rw [if_neg hparse]
  rw [not_or, not_le, not_not] at hparse
  obtain ⟨huuid, hauth⟩ := hparse
  -- both values are there, with the lengths that are asked for
  obtain ⟨u, hu, hul⟩ : ∃ u, valueOf d.bytes uuidKey = some u ∧ u.length < 21 := by
    by_contra hno
    rw [jsonString_of_le (by decide) (by decide) fun v hv => not_lt.mp fun hlt => hno ⟨v, hv, hlt⟩]
      at huuid
    exact absurd huuid (by decide)
  obtain ⟨a, ha, hal⟩ : ∃ a, valueOf d.bytes auzkeyKey = some a ∧ a.length < 33 := by
    by_contra hno
    rw [jsonString_of_le (by decide) (by decide) fun v hv => not_lt.mp fun hlt => hno ⟨v, hv, hlt⟩]
      at hauth
    exact absurd hauth (by decide)
  rw [jsonString_of_lt (by decide) (by decide) hu hul] at huuid ⊢
  rw [jsonString_of_lt (by decide) (by decide) ha hal] at hauth ⊢
  rw [take_inArray, take_inArray]
  rcases hr : authorizeRecord cau u a with e | record
  · exact ⟨_, rfl⟩
  · have hupos : 0 < u.length := by
      exact Int.natCast_pos.mp huuid
    have halen : a.length = 32 := by
      exact Int.natCast_inj.mp hauth
    exact absurd ⟨hlocked, ⟨d, rfl, hu, ha⟩, ⟨hupos, by omega⟩, halen, record, hr⟩ (h u a)

theorem eraseAndWrite_eq (hrom : rom.Reliable) (cau : Cau) (running : ℕ)
    (env : ReadEnv) (fmc : FmcEnv) (uuid authkey : ℤ × List UInt8)
    (hlen : record.bytes.length = sizeofRecord)
    (s : LicenseState) :
    ∃ dev : Dev, dev.flash = program (erase s.dev.flash tuyaFlashLicenseStart 0x1000)
        tuyaFlashLicenseStart record.bytes ∧
      eraseAndWrite rom cau running env fmc uuid authkey record s =
        verifyAndLock cau running env fmc uuid authkey { s with dev := dev } := by
  have hconsts : tuyaFlashLicenseStart = 0x3FA000 ∧ flashTotalSize = 0x400000 ∧
      sizeofRecord = 128 := ⟨rfl, rfl, rfl⟩
  have he := hrom.rawFlashErase_eq tuyaFlashLicenseStart (show 0 < 0x1000 by omega) (by omega)
    (by omega) s.dev
  have hw := fun d => hrom.rawFlashWrite_eq (d := d) (show 0 < record.bytes.length by omega)
    (by omega) (show tuyaFlashLicenseStart + record.bytes.length ≤ flashTotalSize by omega)
  refine ⟨(rawFlashWrite rom tuyaFlashLicenseStart record.bytes
    (rawFlashErase rom tuyaFlashLicenseStart 0x1000 s.dev).2).2, ?_, ?_⟩
  · rw [he, hw]
  · rw [eraseAndWrite]
    rw [if_neg (by rw [he]; exact not_not.mpr rfl), if_neg (by rw [he, hw]; exact not_not.mpr rfl)]

/-- A write that gets to its erase leaves the page with the new license, whatever comes of the
rest. -/
theorem write_of_reaches (hrom : rom.Reliable) (hcau : cau.Inverts)
    (running : ℕ) (env : ReadEnv) (fmc : FmcEnv) (h : Reaches cau data s uuid authkey) :
    ∃ dev : Dev, licenseOf cau dev.flash = some (licenseData authkey uuid) ∧
      tuyaopenLicenseWrite rom cau running env fmc data s =
        verifyAndLock cau running env fmc (inArray uuid 21) (inArray authkey 33)
          { s with dev := dev } := by
  obtain ⟨hlocked, ⟨d, rfl, hu, ha⟩, hul, hal, record, hr⟩ := h
  obtain ⟨hlen, hlicense⟩ := licenseOf_written hcau hr hul.2 hal s.dev.flash
  have hne : d.bytes.length ≠ 0 := by
    intro hnil
    rw [length_eq_zero_iff.mp hnil] at hu
    cases hu
  have hparse : ¬((inArray uuid 21).1 ≤ 0 ∨ (inArray authkey 33).1 ≠ 32) := by
    rw [inArray, inArray]
    omega
  obtain ⟨dev, hdev, hwrite⟩ := eraseAndWrite_eq hrom cau running env fmc (inArray uuid 21)
    (inArray authkey 33) hlen s
  refine ⟨dev, hdev ▸ hlicense, ?_⟩
  rw [tuyaopenLicenseWrite, if_neg hne, if_neg hlocked]
  rw [jsonString_of_lt (by decide) (by decide) hu (by omega),
    jsonString_of_lt (by decide) (by decide) ha (by omega), if_neg hparse, take_inArray,
    take_inArray, hr]
  exact hwrite

/-! ### What comes behind the erase -/

theorem jsonString_license (hq : 34 ∉ uuid) (haq : 34 ∉ authkey)
    (hul : uuid.length ≤ 20) (hal : authkey.length = 32) :
    jsonString (licenseData authkey uuid) auzkeyKey 33 = inArray (fieldString authkey) 33 ∧
      (fieldString authkey = authkey →
        jsonString (licenseData authkey uuid) uuidKey 21 = inArray (fieldString uuid) 21) := by
  have hbytes : (licenseData authkey uuid).bytes =
      licenseJson (fieldString authkey) (fieldString uuid) := by
    change licenseJson (fieldString (authkey.take 32)) (fieldString (uuid.take 20)) = _
    rw [take_of_length_le hal.le, take_of_length_le hul]
  have hsub : ∀ bs : List UInt8, 34 ∉ bs → 34 ∉ fieldString bs := fun bs h hmem =>
    h ((takeWhile_sublist _).mem hmem)
  have hval := valueOf_licenseJson (hsub authkey haq) (hsub uuid hq)
  rw [← hbytes] at hval
  have ha := length_fieldString_le authkey
  have hu := length_fieldString_le uuid
  refine ⟨jsonString_of_lt (by decide) (by decide) hval.1 (by omega), fun heq => ?_⟩
  refine jsonString_of_lt (by decide) (by decide) (hval.2 fun hkey => ?_) (by omega)
  -- an `auzkey` of 32 bytes is not taken for the key
  rw [heq] at hkey
  rw [hkey] at hal
  exact absurd hal (by decide)

theorem fieldString_eq_self_iff (bs : List UInt8) : fieldString bs = bs ↔ 0 ∉ bs := by
  rw [fieldString, takeWhile_eq_self_iff]
  constructor
  · intro h hmem
    simpa using h 0 hmem
  · intro h b hb
    have hne : b ≠ 0 := fun h0 => h (h0 ▸ hb)
    simpa using hne

/-- What has been read back is what has been written if there is no zero in it. -/
theorem readbackOk_iff (hq : 34 ∉ uuid) (haq : 34 ∉ authkey)
    (hul : uuid.length ≤ 20) (hal : authkey.length = 32) :
    readbackOk (licenseData authkey uuid) (inArray uuid 21) (inArray authkey 33) = true ↔
      0 ∉ uuid ∧ 0 ∉ authkey := by
  obtain ⟨ha, hu⟩ := jsonString_license hq haq hul hal
  rw [← fieldString_eq_self_iff, ← fieldString_eq_self_iff, readbackOk, ha]
  have hlen : ∀ (v : List UInt8) (n : ℕ), (inArray v n).1 = v.length := fun _ _ => rfl
  have heq : ∀ bs : List UInt8, (fieldString bs).length = bs.length → fieldString bs = bs :=
    fun bs h => (List.takeWhile_prefix _).eq_of_length h
  simp only [Bool.and_eq_true, decide_eq_true_eq]
  constructor
  · rintro ⟨⟨⟨hu1, ha1⟩, -⟩, -⟩
    have hauth := heq authkey (by rw [hlen, hlen] at ha1; exact_mod_cast ha1)
    rw [hu hauth, hlen, hlen] at hu1
    exact ⟨heq uuid (by exact_mod_cast hu1), hauth⟩
  · rintro ⟨huuid, hauth⟩
    rw [hu hauth, huuid, hauth]
    exact ⟨⟨⟨rfl, rfl⟩, rfl⟩, rfl⟩

/-- The option bytes can be modified, and what comes of it is that the license page is
protected. -/
def LockWorks (fmc : FmcEnv) : Prop :=
  fmc.readyBefore = true ∧ fmc.readyAfter = true ∧
    tuyaLicenseProtectionStatusGet (fmc.obwrp1 (licensePage ||| licensePage <<< 16)) = .locked

/-- A page that is not protected is locked if the option bytes can be modified. -/
theorem tuyaLicenseLock_cases (fmc : FmcEnv) {obwrp1 : UInt32}
    (h : tuyaLicenseProtectionStatusGet obwrp1 ≠ .locked) :
    tuyaLicenseProtectionStatusGet obwrp1 = .unlocked ∧ LockWorks fmc ∧
        (tuyaLicenseLock fmc obwrp1).1 = .ok () ∧
        tuyaLicenseProtectionStatusGet (tuyaLicenseLock fmc obwrp1).2 = .locked ∨
      ¬(tuyaLicenseProtectionStatusGet obwrp1 = .unlocked ∧ LockWorks fmc) ∧
        ∃ e, (tuyaLicenseLock fmc obwrp1).1 = .error e := by
  rw [tuyaLicenseLock]
  rcases hs : tuyaLicenseProtectionStatusGet obwrp1
  · exact absurd hs h
  · dsimp only
    rw [obWriteProtectionConfig]
    rcases hb : fmc.readyBefore
    · exact .inr ⟨fun hw => by simp [LockWorks, hb] at hw, _, rfl⟩
    rw [if_pos rfl]
    rcases ha : fmc.readyAfter
    · exact .inr ⟨fun hw => by simp [LockWorks, ha] at hw, _, rfl⟩
    by_cases hl : tuyaLicenseProtectionStatusGet
        (fmc.obwrp1 (licensePage ||| licensePage <<< 16)) = .locked
    · rw [if_neg (not_not.mpr hl)]
      exact .inl ⟨rfl, ⟨hb, ha, hl⟩, rfl, hl⟩
    · rw [if_pos hl]
      exact .inr ⟨fun hw => hl hw.2.2.2, _, rfl⟩
  · exact .inr ⟨fun hw => by simp at hw, _, rfl⟩

/-- Nothing goes wrong behind the erase. -/
structure Succeeds (env : ReadEnv) (fmc : FmcEnv) (obwrp1 : UInt32) (uuid authkey : List UInt8) :
    Prop where
  reads : env.failed = none ∧ env.mallocOk = true
  /-- What has been written is read back as it was. -/
  no_zero : 0 ∉ uuid ∧ 0 ∉ authkey
  /-- The page is not protected, and is locked. -/
  locks : tuyaLicenseProtectionStatusGet obwrp1 = .unlocked ∧ LockWorks fmc

/-- What comes of a page with the new license on it. -/
theorem verifyAndLock_cases (running : ℕ) (env : ReadEnv) (fmc : FmcEnv) (hq : 34 ∉ uuid) (haq : 34 ∉ authkey) (hul : uuid.length ≤ 20)
    (hal : authkey.length = 32)
    (hs : tuyaLicenseProtectionStatusGet s.obwrp1 ≠ .locked)
    (hlicense : licenseOf cau s.dev.flash = some (licenseData authkey uuid)) :
    (verifyAndLock cau running env fmc (inArray uuid 21) (inArray authkey 33) s).2.dev = s.dev ∧
      (Succeeds env fmc s.obwrp1 uuid authkey ∧
        (verifyAndLock cau running env fmc (inArray uuid 21) (inArray authkey 33) s).1 = .ok () ∧
        tuyaLicenseProtectionStatusGet (verifyAndLock cau running env fmc (inArray uuid 21)
          (inArray authkey 33) s).2.obwrp1 = .locked ∨
      ¬Succeeds env fmc s.obwrp1 uuid authkey ∧ ∃ e,
        (verifyAndLock cau running env fmc (inArray uuid 21) (inArray authkey 33) s).1 =
          .error e) := by
  have hread := tuyaopenLicenseRead_eq cau running env s.dev.flash
  rw [hlicense] at hread
  unfold verifyAndLock
  rw [hread]
  rcases hf : env.failed with - | left
  swap
  · exact ⟨rfl, .inr ⟨fun h => some_ne_none left (hf.symm.trans h.reads.1), _, rfl⟩⟩
  rw [isSome_none, if_neg Bool.false_ne_true]
  dsimp only
  rcases hm : env.mallocOk
  · exact ⟨rfl, .inr ⟨fun h => Bool.false_ne_true (hm.symm.trans h.reads.2), _, rfl⟩⟩
  rw [if_pos rfl]
  dsimp only
  have hback := readbackOk_iff hq haq hul hal
  rcases hr : readbackOk (licenseData authkey uuid) (inArray uuid 21) (inArray authkey 33)
  · rw [hr] at hback
    exact ⟨rfl, .inr ⟨fun h => Bool.false_ne_true (hback.mpr h.no_zero), _, rfl⟩⟩
  rcases tuyaLicenseLock_cases fmc hs with ⟨hu, hw, hok, hl⟩ | ⟨hno, e, he⟩
  · rcases hlock : tuyaLicenseLock fmc s.obwrp1 with ⟨r, o⟩
    rw [hlock] at hok hl
    subst hok
    exact ⟨rfl, .inl ⟨⟨⟨hf, hm⟩, hback.mp hr, hu, hw⟩, rfl, hl⟩⟩
  · rcases hlock : tuyaLicenseLock fmc s.obwrp1 with ⟨r, o⟩
    rw [hlock] at he
    subst he
    exact ⟨rfl, .inr ⟨fun h => hno h.locks, _, rfl⟩⟩

/-! ### A write succeeds, or keeps the license -/

/-- What is expected of a write: if it fails, everything is read as before, and if it succeeds, the
page is locked and what is read has the `uuid` and the `auzkey` that were written. -/
structure FailedWriteKeeps (rom : Rom) (cau : Cau) (running : ℕ) (env : ReadEnv) (fmc : FmcEnv)
    (data : Option CObject) (s : LicenseState) : Prop where
  failed : (tuyaopenLicenseWrite rom cau running env fmc data s).1 ≠ .ok () → ∀ env',
    tuyaopenLicenseRead cau running env'
        (tuyaopenLicenseWrite rom cau running env fmc data s).2.dev.flash =
      tuyaopenLicenseRead cau running env' s.dev.flash
  succeeded : (tuyaopenLicenseWrite rom cau running env fmc data s).1 = .ok () →
    tuyaLicenseProtectionStatusGet
        (tuyaopenLicenseWrite rom cau running env fmc data s).2.obwrp1 = .locked ∧
      ∃ d json, data = some d ∧
        tuyaopenLicenseRead cau running ⟨none, true⟩
          (tuyaopenLicenseWrite rom cau running env fmc data s).2.dev.flash = .ok json ∧
        jsonString json uuidKey 21 = jsonString d uuidKey 21 ∧
        jsonString json auzkeyKey 33 = jsonString d auzkeyKey 33

/-- A write that gets to its erase does what is expected if nothing goes wrong behind it, or the
license is the one that was there. -/
theorem failedWriteKeeps_of_reaches (hrom : rom.Reliable)
    (hcau : cau.Inverts) (running : ℕ) (env : ReadEnv) (fmc : FmcEnv) (h : Reaches cau data s uuid authkey) :
    FailedWriteKeeps rom cau running env fmc data s ↔
      Succeeds env fmc s.obwrp1 uuid authkey ∨
        licenseOf cau s.dev.flash = some (licenseData authkey uuid) := by
  obtain ⟨dev, hlicense, hwrite⟩ := write_of_reaches hrom hcau running env fmc h
  obtain ⟨d, hd, hu, ha⟩ := h.values
  have hq := quote_not_mem_of_valueOf hu
  have haq := quote_not_mem_of_valueOf ha
  have hul := h.uuid_length.2
  have hal := h.authkey_length
  obtain ⟨hdev, hcases⟩ := verifyAndLock_cases running env fmc hq haq hul hal
    (s := { s with dev := dev }) h.not_locked hlicense
  rw [← hwrite] at hdev hcases
  have hflash : licenseOf cau (tuyaopenLicenseWrite rom cau running env fmc data s).2.dev.flash =
      some (licenseData authkey uuid) := by
    rw [hdev]
    exact hlicense
  rcases hcases with ⟨hsucc, hok, hlocked⟩ | ⟨hno, e, he⟩
  · refine ⟨fun _ => .inl hsucc, fun _ => ⟨fun hne => absurd hok hne, fun _ => ⟨hlocked, ?_⟩⟩⟩
    refine ⟨d, licenseData authkey uuid, hd, ?_, ?_, ?_⟩
    · rw [tuyaopenLicenseRead_eq, hflash]
      rfl
    · rw [(jsonString_license hq haq hul hal).2 ((fieldString_eq_self_iff _).mpr hsucc.no_zero.2),
        (fieldString_eq_self_iff _).mpr hsucc.no_zero.1,
        jsonString_of_lt (by decide) (by decide) hu (by omega)]
    · rw [(jsonString_license hq haq hul hal).1, (fieldString_eq_self_iff _).mpr hsucc.no_zero.2,
        jsonString_of_lt (by decide) (by decide) ha (by omega)]
  · have hfail : (tuyaopenLicenseWrite rom cau running env fmc data s).1 ≠ .ok () := by
      rw [he]
      intro hcontra
      cases hcontra
    constructor
    · intro hkeeps
      have hreads := (reads_eq_iff cau running _ _).mp (hkeeps.failed hfail)
      exact .inr (hreads.symm.trans hflash)
    · rintro (hsucc | hold)
      · exact absurd hsucc hno
      · refine ⟨fun _ => (reads_eq_iff cau running _ _).mpr (hflash.trans hold.symm), fun hok => ?_⟩
        exact absurd hok hfail

/-- **A write succeeds or keeps the license if and only if nothing goes wrong once it has got to its
erase, or the license is the one that was there.** -/
theorem failedWriteKeeps_iff {rom : Rom} (hrom : rom.Reliable) {cau : Cau} (hcau : cau.Inverts)
    (running : ℕ) (env : ReadEnv) (fmc : FmcEnv) (data : Option CObject) (s : LicenseState) :
    FailedWriteKeeps rom cau running env fmc data s ↔
      ∀ uuid authkey, Reaches cau data s uuid authkey →
        Succeeds env fmc s.obwrp1 uuid authkey ∨
          licenseOf cau s.dev.flash = some (licenseData authkey uuid) := by
  constructor
  · exact fun h uuid authkey hr =>
      (failedWriteKeeps_of_reaches hrom hcau running env fmc hr).mp h
  · intro h
    by_cases hr : ∃ uuid authkey, Reaches cau data s uuid authkey
    · obtain ⟨uuid, authkey, hr⟩ := hr
      exact (failedWriteKeeps_of_reaches hrom hcau running env fmc hr).mpr (h uuid authkey hr)
    · obtain ⟨e, he⟩ := write_of_not_reaches rom running env fmc (s := s) fun uuid authkey hr' =>
        hr ⟨uuid, authkey, hr'⟩
      refine ⟨fun _ env' => by rw [he], fun hok => ?_⟩
      rw [he] at hok
      cases hok

/-- Some bits flipped. -/
def flipBits (bs : List UInt8) : List UInt8 := bs.map (· ^^^ 0x5A)

/-- A cryptographic unit that flips some bits, with the first bytes of its output for the tag. -/
def flipCau : Cau where
  symmKeyDerive := some
  aesGcm
    | .encrypt, _, _, _, input => some (flipBits input, (flipBits input).take 16)
    | .decrypt, _, _, _, input => some (flipBits input, input.take 16)

theorem inverts_flipCau : flipCau.Inverts := by
  rintro key iv aad input output tag hlen ⟨⟩
  refine ⟨by rw [flipBits, length_map, hlen], by simp [flipBits, hlen], ?_⟩
  have hflip : ((· ^^^ 0x5A) ∘ (· ^^^ 0x5A) : UInt8 → UInt8) = id := by
    funext b
    change b ^^^ 0x5A ^^^ 0x5A = b
    rw [UInt8.xor_assoc, UInt8.xor_self, UInt8.xor_zero]
  rw [flipCau]
  dsimp only
  rw [flipBits, flipBits, List.map_map, hflip, List.map_id]

/-- The license `auzkey` `cc…`, `uuid` `a`. -/
def newLicense : CObject := licenseData (List.replicate 32 99) [97]

/-- What is on the page for the license `dd…`, `b`. -/
def oldRecord : AuthorizeFlashRecord where
  uuidCipher := flipBits (98 :: List.replicate 31 0)
  uuidTag := (flipBits (98 :: List.replicate 31 0)).take 16
  authkeyCipher := flipBits (List.replicate 32 100)
  authkeyTag := (flipBits (List.replicate 32 100)).take 16
  aad := sAuthorizeAad
  iv := sAuthorizeGcmIv

/-- A device with the license `dd…`, `b`, which protects its first page. -/
def oldLicensed : LicenseState where
  dev := ⟨program (erase (fun _ => 0) tuyaFlashLicenseStart 0x1000) tuyaFlashLicenseStart
    oldRecord.bytes, []⟩
  obwrp1 := 0

/-- A flash controller on which everything works. -/
def goodFmc : FmcEnv := ⟨true, true, id⟩

theorem failedWriteKeeps_oldLicensed :
    Rom.Reliable ⟨fun _ _ => 0⟩ ∧ flipCau.Inverts ∧
      (FailedWriteKeeps ⟨fun _ _ => 0⟩ flipCau 0 ⟨none, true⟩ goodFmc (some newLicense)
          oldLicensed ↔
        ∀ uuid authkey, Reaches flipCau (some newLicense) oldLicensed uuid authkey →
          Succeeds ⟨none, true⟩ goodFmc oldLicensed.obwrp1 uuid authkey ∨
            licenseOf flipCau oldLicensed.dev.flash = some (licenseData authkey uuid)) :=
  ⟨fun _ _ => rfl, inverts_flipCau,
    failedWriteKeeps_iff (fun _ _ => rfl) inverts_flipCau 0 ⟨none, true⟩ goodFmc (some newLicense)
      oldLicensed⟩

/-- With another page protected the write fails behind its erase, and the license is lost. -/
theorem not_failedWriteKeeps_oldLicensed : ¬ ∀ (rom : Rom), rom.Reliable → ∀ (cau : Cau),
    cau.Inverts → ∀ (running : ℕ) (env : ReadEnv) (fmc : FmcEnv) (data : Option CObject)
      (s : LicenseState), FailedWriteKeeps rom cau running env fmc data s := by
  intro hall
  have hvalues := valueOf_licenseJson (show 34 ∉ List.replicate 32 (99 : UInt8) by decide)
    (show (34 : UInt8) ∉ [97] by decide)
  have hreaches : Reaches flipCau (some newLicense) oldLicensed [97] (List.replicate 32 99) :=
    ⟨by decide, ⟨newLicense, rfl, hvalues.2 (by decide), hvalues.1⟩, by decide, by decide, _, rfl⟩
  have hkeeps := hall ⟨fun _ _ => 0⟩ (fun _ _ => rfl) flipCau inverts_flipCau 0 ⟨none, true⟩
    goodFmc (some newLicense) oldLicensed
  rcases (failedWriteKeeps_of_reaches (fun _ _ => rfl) inverts_flipCau 0 ⟨none, true⟩ goodFmc
    hreaches).mp hkeeps with hsucc | hold
  · exact absurd hsucc.locks.1 (by decide)
  · have hrecord : authorizeRecord flipCau [98] (List.replicate 32 100) = .ok oldRecord := rfl
    have hlicense := (licenseOf_written inverts_flipCau hrecord (by decide) (by decide)
      (fun _ => 0)).2
    have heq := hlicense.symm.trans hold
    rw [Option.some.injEq, licenseData, licenseData, CObject.mk.injEq] at heq
    exact absurd heq (by decide)

end Tuya

end Gd32
