import Gd32Firmware.Nvds.Put

/-!
# The partitions of the adapter

`tkl_flash.c` hands out the flash behind the two image slots as partitions: for a type it
reports where the partition starts and how long it is, and it writes and erases by address,
with no further check than that of the raw driver. Nothing in `tkl_flash.c` knows where the
license page (`tuyaopen_license.c`) and the area of the internal storage (`nvds_type.h`) are;
the three files agree only as far as their offsets do.

| what | from | to |
| --- | --- | --- |
| `TUYA_FLASH_TYPE_UF` | `0x3CA000` | `0x3DA000` |
| `TUYA_FLASH_TYPE_KV_DATA` | `0x3DA000` | `0x3EA000` |
| `TUYA_FLASH_TYPE_KV_KEY` | `0x3EA000` | `0x3EB000` |
| `TUYA_FLASH_TYPE_KV_SWAP` | `0x3EB000` | `0x3EF000` |
| `TUYA_FLASH_TYPE_USER0` | `0x3EF000` | `0x3FF000` |
| `TUYA_FLASH_TYPE_KV_PROTECT` | `0x3FF000` | `0x401000` |
| license page | `0x3FA000` | `0x3FB000` |
| internal storage | `0x3FB000` | `0x3FF000` |

So the last five pages of `TUYA_FLASH_TYPE_USER0` are the license and the storage, and
`Tuya.isolated_iff` says that nothing else is shared. All these bounds are multiples of
the erase unit, so whole pages are shared or none.
-/

namespace Gd32

variable {x : ℕ} {kv : Bool} {type : FlashType}

namespace Tuya

open NorFlash Nvds NvdsM

/-! ### The partitions -/

/-- `TUYA_FLASH_TYPE_E`. -/
inductive FlashType where
  | btl0 | btl1 | stack | appBin | app | ota | user0 | user1 | kvData | kvSwap | kvKey | uf
  | info | kvUf | kvProtect | rcd | rsv0 | rsv1 | rsv2 | rsv3 | rsv4 | rsv5 | rsv6 | rsv7 | all
  | max
  deriving DecidableEq

def flashBlockSize : ℕ := 0x1000

def tuyaFlashUfSize : ℕ := 0x10000

def tuyaFlashUfStart : ℕ := reImg1End

def tuyaFlashKvDataSize : ℕ := 0x10000

def tuyaFlashKvDataStart : ℕ := tuyaFlashUfStart + tuyaFlashUfSize

def tuyaFlashKvKeySize : ℕ := 0x1000

def tuyaFlashKvKeyStart : ℕ := tuyaFlashKvDataStart + tuyaFlashKvDataSize

def tuyaFlashKvSwapSize : ℕ := 0x4000

def tuyaFlashKvSwapStart : ℕ := tuyaFlashKvKeyStart + tuyaFlashKvKeySize

def tuyaFlashTypeUser0Size : ℕ := 0x10000

def tuyaFlashTypeUser0Start : ℕ := tuyaFlashKvSwapStart + tuyaFlashKvSwapSize

def tuyaFlashKvProtectSize : ℕ := 0x2000

def tuyaFlashKvProtectStart : ℕ := tuyaFlashTypeUser0Start + tuyaFlashTypeUser0Size

/-- `TUYA_FLASH_TYPE_APP_SIZE`, which is `TUYA_FLASH_TYPE_APP_BIN_SIZE` too. -/
def tuyaFlashTypeAppSize : ℕ := reImg1Offset - reImg0Offset

/-- `TUYA_FLASH_TYPE_APP_START`, which is `TUYA_FLASH_TYPE_APP_BIN_START` too. -/
def tuyaFlashTypeAppStart : ℕ := reImg0Offset

def tuyaFlashTypeOtaSize : ℕ := reImg1End - reImg1Offset

def tuyaFlashTypeOtaStart : ℕ := reImg1Offset

/-- `TUYA_FLASH_LICENSE_SIZE`, of `tuyaopen_license.c`. -/
def tuyaFlashLicenseSize : ℕ := 0x1000

/-- `TUYA_FLASH_LICENSE_START`, of `tuyaopen_license.c`. -/
def tuyaFlashLicenseStart : ℕ := nvdsFlashInternalAddr - tuyaFlashLicenseSize

/-- `TUYA_FLASH_PARTITION_T`. -/
structure FlashPartition where
  blockSize : ℕ
  startAddr : ℕ
  size : ℕ

/-- `TUYA_FLASH_BASE_INFO_T`. -/
structure FlashBaseInfo where
  partitionNum : ℕ
  partition : ℕ → FlashPartition

/-- The assignments every case of `tkl_flash_get_one_type_info` makes. -/
def FlashBaseInfo.fill (info : FlashBaseInfo) (startAddr size : ℕ) : FlashBaseInfo where
  partitionNum := 1
  partition := Function.update info.partition 0 ⟨flashBlockSize, startAddr, size⟩

/-- `tkl_flash_get_one_type_info`, `none` being a null `info` and `kvProtectedEnable` the macro
of that name. -/
def tklFlashGetOneTypeInfo (kvProtectedEnable : Bool) (type : FlashType)
    (info : Option FlashBaseInfo) : Except OprtErr FlashBaseInfo :=
  match info with
  | none => .error .invalidParm
  | some info =>
    match type with
    | .uf => .ok (info.fill tuyaFlashUfStart tuyaFlashUfSize)
    | .kvData => .ok (info.fill tuyaFlashKvDataStart tuyaFlashKvDataSize)
    | .kvKey => .ok (info.fill tuyaFlashKvKeyStart tuyaFlashKvKeySize)
    | .kvSwap => .ok (info.fill tuyaFlashKvSwapStart tuyaFlashKvSwapSize)
    | .kvProtect =>
      if kvProtectedEnable then .ok (info.fill tuyaFlashKvProtectStart tuyaFlashKvProtectSize)
      else .error .invalidParm
    | .app => .ok (info.fill tuyaFlashTypeAppStart tuyaFlashTypeAppSize)
    | .appBin => .ok (info.fill tuyaFlashTypeAppStart tuyaFlashTypeAppSize)
    | .ota => .ok (info.fill tuyaFlashTypeOtaStart tuyaFlashTypeOtaSize)
    | .user0 => .ok (info.fill tuyaFlashTypeUser0Start tuyaFlashTypeUser0Size)
    | _ => .error .invalidParm

/-- `p` is the partition reported for `type`. -/
def Reports (kvProtectedEnable : Bool) (type : FlashType) (p : FlashPartition) : Prop :=
  ∃ info info', tklFlashGetOneTypeInfo kvProtectedEnable type (some info) = .ok info' ∧
    info'.partition 0 = p

/-- The types whose partitions are the image slots. -/
def FlashType.IsImage (type : FlashType) : Prop := type = .app ∨ type = .appBin ∨ type = .ota

/-! ### Writing and erasing -/

/-- `tkl_flash_write`, the buffer being `src` with its length. -/
def tklFlashWrite (rom : Rom) (addr : ℕ) (src : List UInt8) (d : Dev) :
    Except OprtErr Unit × Dev :=
  let w := rawFlashWrite rom addr src d
  (if w.1 = 0 then .ok () else .error .comError, w.2)

def tklFlashErase (rom : Rom) (addr size : ℕ) (d : Dev) : Except OprtErr Unit × Dev :=
  let w := rawFlashErase rom addr size d
  (if w.1 = 0 then .ok () else .error .comError, w.2)

/-- `tkl_flash_read` into the buffer `dst`, of as many bytes; `failed` is what the ROM leaves in it
when it fails. -/
def tklFlashRead (running addr : ℕ) (failed : Option (List UInt8)) (f : Flash)
    (dst : List UInt8) : Except OprtErr Unit × List UInt8 :=
  let r := rawFlashRead running addr failed f dst
  (if r.1 = 0 then .ok () else .error .comError, r.2)

/-- Behind the images a read is one of the flash as it is, whichever image runs. -/
theorem tklFlashRead_of_reImg1End_le (running : ℕ) {addr : ℕ} (f : Flash)
    (ha : reImg1End ≤ addr) (dst : List UInt8) (hd : 0 < dst.length)
    (h : addr + dst.length ≤ flashTotalSize) :
    tklFlashRead running addr none f dst = (.ok (), read f addr dst.length) := by
  have hconsts : reImg0Offset = 0xA000 ∧ reImg1Offset = 0x1EA000 ∧ reImg1End = 0x3CA000 ∧
      flashTotalSize = 0x400000 ∧ flashPageSize = 0x1000 := ⟨rfl, rfl, rfl, rfl, rfl⟩
  have hok : rawFlashRangeOk addr dst.length = true :=
    (rawFlashRangeOk_iff (by omega)).mpr ⟨hd, h⟩
  obtain ⟨v, hv⟩ : ∃ v, rawFlashReadAt running addr = (fmcOffset v, addr) := by
    rw [rawFlashReadAt]
    split_ifs <;> first | omega | exact ⟨_, rfl⟩
  rw [tklFlashRead, rawFlashRead, if_pos hok]
  rw [if_pos rfl, hv]
  refine Prod.ext rfl (List.map_congr_left fun i hi => congrArg f ?_)
  have hpages : (fmcOffset v).epage = 0x1E9 := rfl
  rw [FmcOffset.addr, if_neg]
  rw [hpages, hconsts.2.2.2.2]
  omega

/-- A read that the ROM fails is an error. -/
theorem tklFlashRead_failed (running addr : ℕ) (left : List UInt8) (f : Flash) (dst : List UInt8) :
    (tklFlashRead running addr (some left) f dst).1 = .error .comError := by
  rw [tklFlashRead, rawFlashRead]
  split <;> rfl

/-- A call that changes the flash. -/
inductive FlashCall where
  /-- `tkl_flash_write`. -/
  | write (addr : ℕ) (src : List UInt8)
  /-- `tkl_flash_erase`. -/
  | erase (addr size : ℕ)

/-- The address a call is made for. -/
def FlashCall.addr : FlashCall → ℕ
  | write addr _ => addr
  | erase addr _ => addr

/-- The length of the range of a call. -/
def FlashCall.size : FlashCall → ℕ
  | write _ src => src.length
  | erase _ size => size

/-- Making the call. -/
def FlashCall.run (rom : Rom) : FlashCall → Dev → Except OprtErr Unit × Dev
  | write addr src => tklFlashWrite rom addr src
  | erase addr size => tklFlashErase rom addr size

/-- The call asks for the byte at `x` to change: it erases it, or programs a bit of it. -/
def FlashCall.Alters (x : ℕ) : FlashCall → Prop
  | write addr src => addr ≤ x ∧ x < addr + src.length ∧ src.getD (x - addr) blank ≠ blank
  | erase addr size => addr ≤ x ∧ x < addr + size

theorem FlashCall.Alters.within {c : FlashCall} (h : c.Alters x) :
    c.addr ≤ x ∧ x < c.addr + c.size := by
  cases c with
  | write addr src => exact ⟨h.1, h.2.1⟩
  | erase addr size => exact h

/-- **A byte a call does not ask to change stays**, whatever the ROM answers. -/
theorem FlashCall.run_flash (rom : Rom) {c : FlashCall} (h : ¬c.Alters x) (d : Dev) :
    (c.run rom d).2.flash x = d.flash x := by
  cases c with
  | write addr src =>
    simp only [run, tklFlashWrite, rawFlashWrite]
    split
    · simp only [Rom.issue]
      split
      · simp only [Prim.apply, program]
        split
        next hx =>
          have hb : src.getD (x - addr) blank = blank := by
            by_contra hb
            exact h ⟨hx.1, hx.2, hb⟩
          rw [hb, and_blank]
        next => rfl
      · rfl
    · rfl
  | erase addr size =>
    simp only [run, tklFlashErase, rawFlashErase]
    split
    · simp only [Rom.issue]
      split
      · exact if_neg h
      · rfl
    · rfl

/-! ### What a key reads

`nvds_data_get` looks at the flash through `nvds_flash_read` only, which stays inside the
partition. -/

section Keys

variable {rom : NvdsRom} {env env' : FlashEnv}

/-- The two environments differ in the device at most, and read the same entries. -/
structure SameEntries (rom : NvdsRom) (env env' : FlashEnv) : Prop where
  nsList : env'.nsList = env.nsList
  pageUsed : env'.pageUsed = env.pageUsed
  pages : env'.pages = env.pages
  entries : ∀ k idx, entryRead rom env' k idx = entryRead rom env k idx

theorem SameEntries.entryWalk_eq (h : SameEntries rom env env') (k ns : ℕ) (key : CString)
    (type : ElementType) (n idx : ℕ) :
    entryWalk rom env' k ns key type n idx = entryWalk rom env k ns key type n idx := by
  induction n generalizing idx with
  | zero => rfl
  | succ n ih => simp only [entryWalk, h.pages, h.entries, ih]

theorem SameEntries.pageWalk_eq (h : SameEntries rom env env') (ns : ℕ) (key : CString)
    (type : ElementType) (ks : List ℕ) (start : ℕ) :
    pageWalk rom env' ns key type ks start = pageWalk rom env ns key type ks start := by
  induction ks generalizing start with
  | nil => rfl
  | cons k ks ih => simp only [pageWalk, h.pages, h.entryWalk_eq, ih]

theorem SameEntries.elementFind_eq (h : SameEntries rom env env') (ns : ℕ) (key : CString)
    (pageStart : Option ℕ) (start : ℕ) (type : ElementType) :
    elementFind rom env' ns key pageStart start type =
      elementFind rom env ns key pageStart start type := by
  simp only [elementFind, h.pageUsed, h.pageWalk_eq]

theorem SameEntries.copyData_eq (h : SameEntries rom env env') (k last n idx remain : ℕ) :
    copyData rom env' k last n idx remain = copyData rom env k last n idx remain := by
  induction n generalizing idx remain with
  | zero => rfl
  | succ n ih => simp only [copyData, h.entries, ih]

theorem SameEntries.bulkFragFind_eq (h : SameEntries rom env env') (ns : ℕ) (key : CString)
    (frag n : ℕ) (pageStart : Option ℕ) (start : ℕ) :
    bulkFragFind rom env' ns key frag n pageStart start =
      bulkFragFind rom env ns key frag n pageStart start := by
  induction n generalizing pageStart start with
  | zero => rfl
  | succ n ih => simp only [bulkFragFind, h.elementFind_eq, h.entries, ih]

theorem SameEntries.bulkFragsGet_eq (h : SameEntries rom env env') (ns : ℕ) (key : CString)
    (n frag : ℕ) : bulkFragsGet rom env' ns key n frag = bulkFragsGet rom env ns key n frag := by
  induction n generalizing frag with
  | zero => rfl
  | succ n ih =>
    simp only [bulkFragsGet, FlashEnv.spots, h.pageUsed, h.bulkFragFind_eq, h.copyData_eq, ih]

theorem SameEntries.dataElementGet_eq (h : SameEntries rom env env') (ns : ℕ) (key : CString)
    (buf : Option ℕ) : dataElementGet rom env' ns key buf = dataElementGet rom env ns key buf := by
  simp only [dataElementGet, bulkElementGet, elementFill, h.elementFind_eq, h.entries,
    h.bulkFragsGet_eq, h.copyData_eq]

theorem SameEntries.nsIndexByNamespace_eq (h : SameEntries rom env env') (name : Option CString) :
    ∃ r, nsIndexByNamespace rom name false env = some (r, env) ∧
      nsIndexByNamespace rom name false env' = some (r, env') := by
  cases name with
  | none => exact ⟨.ok namespaceNullIdx, rfl, rfl⟩
  | some name =>
    by_cases hlen : name.len ≤ keyNameMaxSize - 1
    · simp only [nsIndexByNamespace, check_bind (decide_eq_true hlen), get_bind,
        h.nsList]
      cases env.nsList.find? fun ns => decide (ns.name = name) with
      | none => exact ⟨.error .notFound, rfl, rfl⟩
      | some ns => exact ⟨.ok ns.index, rfl, rfl⟩
    · exact ⟨.error .invalParam, check_bind_false (decide_eq_false hlen) _ _ _,
        check_bind_false (decide_eq_false hlen) _ _ _⟩

/-- **A key reads the same where the entries do.** -/
theorem SameEntries.nvdsDataGet_eq (h : SameEntries rom env env') (name key : Option CString)
    (buf : Option ℕ) :
    (nvdsDataGet rom name key buf env').map Prod.fst =
      (nvdsDataGet rom name key buf env).map Prod.fst := by
  cases key with
  | none => rfl
  | some key =>
    by_cases hlen : key.len ≤ keyNameMaxSize - 1
    · rw [nvdsDataGet, check_bind (decide_eq_true hlen)]
      obtain ⟨r, hr, hr'⟩ := h.nsIndexByNamespace_eq name
      cases r with
      | error e => rw [bind_error hr, bind_error hr']; rfl
      | ok idx =>
        rw [bind_ok hr, bind_ok hr']
        simp only [NvdsM.search, h.dataElementGet_eq, Option.map_map]
        rfl
    · rw [nvdsDataGet, check_bind_false (decide_eq_false hlen),
        check_bind_false (decide_eq_false hlen)]
      rfl

/-- Devices that agree on the partition hold the same entries. -/
theorem sameEntries_of_agree (hreads : ∀ ps a n, rom.readRc ps a n = 0) (env : FlashEnv)
    {d d' : Dev}
    (h : ∀ x, env.baseAddr ≤ x → x < env.baseAddr + env.length → d'.flash x = d.flash x) :
    SameEntries rom { env with dev := d } { env with dev := d' } where
  nsList := rfl
  pageUsed := rfl
  pages := rfl
  entries k idx := by
    simp only [entryRead, nvdsFlashRead, hreads, FlashEnv.flash]
    split
    · rfl
    next hlen =>
      rw [read_congr fun x h1 h2 => h x (by omega) (by omega)]

end Keys

/-! ### Isolation -/

/-- The addresses a call on the partition of `type` has to leave alone: the two image slots,
the other data partitions, the license page and the internal storage. -/
def Guarded (kvProtectedEnable : Bool) (type : FlashType) (x : ℕ) : Prop :=
  (reImg0Offset ≤ x ∧ x < reImg1Offset) ∨ (reImg1Offset ≤ x ∧ x < reImg1End) ∨
    (∃ t p, t ≠ type ∧ ¬t.IsImage ∧ Reports kvProtectedEnable t p ∧
      p.startAddr ≤ x ∧ x < p.startAddr + p.size) ∨
    (tuyaFlashLicenseStart ≤ x ∧ x < tuyaFlashLicenseStart + tuyaFlashLicenseSize) ∨
    (nvdsFlashInternalAddr ≤ x ∧ x < nvdsFlashInternalAddr + nvdsFlashInternalSize)

/-- **Isolation** of the partition of `type` between two states of the device: what is guarded
keeps its bytes, and so the license and every key of the internal storage read the same. -/
structure Isolated (kvProtectedEnable : Bool) (type : FlashType) (d d' : Dev) : Prop where
  bytes : ∀ x, Guarded kvProtectedEnable type x → d'.flash x = d.flash x
  license : read d'.flash tuyaFlashLicenseStart tuyaFlashLicenseSize =
    read d.flash tuyaFlashLicenseStart tuyaFlashLicenseSize
  keys : ∀ (rom : NvdsRom) (env : FlashEnv) (name key : Option CString) (buf : Option ℕ),
    (∀ ps a n, rom.readRc ps a n = 0) → env.baseAddr = nvdsFlashInternalAddr →
      env.length = nvdsFlashInternalSize →
      (nvdsDataGet rom name key buf { env with dev := d' }).map Prod.fst =
        (nvdsDataGet rom name key buf { env with dev := d }).map Prod.fst

theorem isolated_of_bytes {d d' : Dev}
    (h : ∀ x, Guarded kv type x → d'.flash x = d.flash x) : Isolated kv type d d' where
  bytes := h
  license := read_congr fun x h1 h2 => h x (.inr (.inr (.inr (.inl ⟨h1, h2⟩))))
  keys := by
    intro rom env name key buf hreads hbase hlength
    refine (sameEntries_of_agree hreads env fun x h1 h2 => ?_).nvdsDataGet_eq name key buf
    rw [hbase] at h1 h2
    rw [hlength] at h2
    exact h x (.inr (.inr (.inr (.inr ⟨h1, h2⟩))))

/-- The data partitions reported. -/
theorem Reports.cases {p : FlashPartition}
    (h : Reports kv type p) (hi : ¬type.IsImage) :
    (type = .uf ∧ p.startAddr = 0x3CA000 ∧ p.size = 0x10000) ∨
    (type = .kvData ∧ p.startAddr = 0x3DA000 ∧ p.size = 0x10000) ∨
    (type = .kvKey ∧ p.startAddr = 0x3EA000 ∧ p.size = 0x1000) ∨
    (type = .kvSwap ∧ p.startAddr = 0x3EB000 ∧ p.size = 0x4000) ∨
    (type = .user0 ∧ p.startAddr = 0x3EF000 ∧ p.size = 0x10000) ∨
    (type = .kvProtect ∧ p.startAddr = 0x3FF000 ∧ p.size = 0x2000) := by
  obtain ⟨info, info', hget, rfl⟩ := h
  cases type <;> simp only [tklFlashGetOneTypeInfo, reduceCtorEq, Except.ok.injEq] at hget
  case app => exact absurd (.inl rfl) hi
  case appBin => exact absurd (.inr (.inl rfl)) hi
  case ota => exact absurd (.inr (.inr rfl)) hi
  case kvProtect =>
    split at hget
    · obtain rfl := Except.ok.inj hget
      simp [FlashBaseInfo.fill, tuyaFlashKvProtectStart, tuyaFlashTypeUser0Start,
        tuyaFlashKvSwapStart, tuyaFlashKvKeyStart, tuyaFlashKvDataStart, tuyaFlashUfStart,
        reImg1End, tuyaFlashTypeUser0Size, tuyaFlashKvSwapSize, tuyaFlashKvKeySize,
        tuyaFlashKvDataSize, tuyaFlashUfSize, tuyaFlashKvProtectSize]
    · simp at hget
  all_goals
    subst hget
    simp [FlashBaseInfo.fill, tuyaFlashTypeUser0Start, tuyaFlashKvSwapStart,
      tuyaFlashKvKeyStart, tuyaFlashKvDataStart, tuyaFlashUfStart, reImg1End,
      tuyaFlashTypeUser0Size, tuyaFlashKvSwapSize, tuyaFlashKvKeySize, tuyaFlashKvDataSize,
      tuyaFlashUfSize]

theorem tuyaFlashLicenseStart_eq : tuyaFlashLicenseStart = 0x3FA000 := rfl

/-- A guarded address inside a data partition is one of the last five pages of
`TUYA_FLASH_TYPE_USER0`. -/
theorem Guarded.shared {p : FlashPartition}
    (hp : Reports kv type p) (hi : ¬type.IsImage) (hlo : p.startAddr ≤ x)
    (hhi : x < p.startAddr + p.size) (h : Guarded kv type x) :
    type = .user0 ∧ tuyaFlashLicenseStart ≤ x := by
  rw [tuyaFlashLicenseStart_eq]
  have hcases := hp.cases hi
  rcases h with h | h | ⟨t, q, hne, hqi, hq, h⟩ | h | h
  · simp only [reImg0Offset, reImg1Offset] at h
    omega
  · simp only [reImg1Offset, reImg1End] at h
    omega
  · -- two data partitions never overlap
    exfalso
    rcases hcases with ⟨rfl, h1, h2⟩ | ⟨rfl, h1, h2⟩ | ⟨rfl, h1, h2⟩ | ⟨rfl, h1, h2⟩ |
      ⟨rfl, h1, h2⟩ | ⟨rfl, h1, h2⟩ <;>
    rcases hq.cases hqi with ⟨rfl, h3, h4⟩ | ⟨rfl, h3, h4⟩ | ⟨rfl, h3, h4⟩ | ⟨rfl, h3, h4⟩ |
      ⟨rfl, h3, h4⟩ | ⟨rfl, h3, h4⟩ <;>
    first
    | exact hne rfl
    | omega
  · rw [tuyaFlashLicenseStart_eq] at h
    rcases hcases with h' | h' | h' | h' | h' | h' <;>
      first
      | exact ⟨h'.1, h.1⟩
      | (simp only [tuyaFlashLicenseSize] at h; omega)
  · simp only [nvdsFlashInternalAddr, nvdsFlashInternalSize] at h
    rcases hcases with h' | h' | h' | h' | h' | h' <;>
      first
      | exact ⟨h'.1, by omega⟩
      | omega

/-- **Where the partitions are isolated.** A call whose range lies in a data partition leaves
everything that is guarded alone, on every device, exactly when the partition is another than
`TUYA_FLASH_TYPE_USER0` or the call asks for no change from the license page on. -/
theorem isolated_iff (kv : Bool) {type : FlashType} (hi : ¬type.IsImage) {p : FlashPartition}
    (hp : Reports kv type p) (c : FlashCall) (hlo : p.startAddr ≤ c.addr)
    (hhi : c.addr + c.size ≤ p.startAddr + p.size) :
    (∀ (rom : Rom) (d : Dev), Isolated kv type d (c.run rom d).2) ↔
      (type = .user0 → ∀ x, c.Alters x → x < tuyaFlashLicenseStart) := by
  constructor
  · rintro h rfl x hx
    by_contra hge
    -- the device holds the very byte that the call changes
    have hin := hx.within
    obtain ⟨-, hstart, hsize⟩ : FlashType.user0 = .user0 ∧ p.startAddr = 0x3EF000 ∧
        p.size = 0x10000 := by simpa using hp.cases hi
    have hguard : Guarded kv .user0 x := by
      refine .inr (.inr (.inr ?_))
      rw [tuyaFlashLicenseStart_eq] at hge ⊢
      simp only [tuyaFlashLicenseSize, nvdsFlashInternalAddr, nvdsFlashInternalSize]
      omega
    have hok : rawFlashRangeOk c.addr c.size = true := by
      rw [rawFlashRangeOk_iff (by omega), flashTotalSize]
      omega
    cases c with
    | write addr src =>
      have hb := (h ⟨fun _ _ => 0⟩ ⟨fun _ => blank, []⟩).bytes x hguard
      simp only [FlashCall.addr, FlashCall.size] at hok
      simp only [FlashCall.run, tklFlashWrite, rawFlashWrite, if_pos hok, Rom.issue, if_true,
        Prim.apply, program, if_pos (And.intro hx.1 hx.2.1), blank_and] at hb
      exact hx.2.2 hb
    | erase addr size =>
      have hb := (h ⟨fun _ _ => 0⟩ ⟨fun _ => 0, []⟩).bytes x hguard
      simp only [FlashCall.addr, FlashCall.size] at hok
      simp only [FlashCall.run, tklFlashErase, rawFlashErase, if_pos hok, Rom.issue, if_true,
        Prim.apply, erase, if_pos (show addr ≤ x ∧ x < addr + size from hx)] at hb
      exact absurd hb (by decide)
  · intro h rom d
    refine isolated_of_bytes fun x hx => c.run_flash rom (fun ha => ?_) d
    have hin := ha.within
    obtain ⟨htype, hge⟩ := hx.shared hp hi (by omega) (by omega)
    exact absurd (h htype x ha) (by omega)

/-- Erasing the first page of `TUYA_FLASH_TYPE_UF` is such a call. -/
theorem isolated_uf :
    Isolated false .uf ⟨fun _ => 0, []⟩
      ((FlashCall.erase 0x3CA000 0x1000).run ⟨fun _ _ => 0⟩ ⟨fun _ => 0, []⟩).2 :=
  (isolated_iff false (by simp [FlashType.IsImage])
    (p := ⟨0x1000, 0x3CA000, 0x10000⟩) ⟨⟨0, fun _ => ⟨0, 0, 0⟩⟩, _, rfl, rfl⟩
    (.erase 0x3CA000 0x1000) (by decide) (by decide)).mpr (fun h => by simp at h) _ _

/-- **The partitions are not isolated**: a page of `TUYA_FLASH_TYPE_USER0`, erased, is the
first page of the internal storage. -/
theorem user0_not_isolated :
    Reports false .user0 ⟨0x1000, 0x3EF000, 0x10000⟩ ∧ ¬FlashType.IsImage .user0 ∧
      0x3EF000 ≤ (FlashCall.erase 0x3FB000 0x1000).addr ∧
      (FlashCall.erase 0x3FB000 0x1000).addr + (FlashCall.erase 0x3FB000 0x1000).size ≤
        0x3EF000 + 0x10000 ∧
      ¬Isolated false .user0 ⟨fun _ => 0, []⟩
        ((FlashCall.erase 0x3FB000 0x1000).run ⟨fun _ _ => 0⟩ ⟨fun _ => 0, []⟩).2 := by
  refine ⟨⟨⟨0, fun _ => ⟨0, 0, 0⟩⟩, _, rfl, rfl⟩, by simp [FlashType.IsImage], by decide,
    by decide, fun h => ?_⟩
  have hb := h.bytes 0x3FB000 (.inr (.inr (.inr (.inr (by decide)))))
  exact absurd hb (by decide)

end Tuya

end Gd32
