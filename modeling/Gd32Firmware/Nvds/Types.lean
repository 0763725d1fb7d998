import Gd32Firmware.Config
import Gd32Firmware.Lib.LittleEndian
import Gd32Firmware.Util.Crc
import Gd32Firmware.Util.CString

/-!
# The layout of the non-volatile data storage

`nvds_type.h` and the small functions of `nvds_flash.c` that take its records apart. A page is a
flash sector: 32 bytes of header, 32 bytes of entry states, two bits for each entry, and 126
entries of 32 bytes. A value of at most 8 bytes lives in the entry that describes it; a longer
one in the entries behind it; one of more than 256 bytes is cut into fragments, each an element
of its own, which a last entry counts.

Multi-byte fields are little-endian, as on the target.
-/

namespace Gd32

open List

variable {a b : List UInt8} {n : ℕ}

namespace Nvds

open LittleEndian

/-! ### Constants and return codes -/

def spiFlashSecSize : ℕ := 4096

def entrySize : ℕ := 32

/-- `ENTRY_COUNT_PER_PAGE`: two entries are taken by the header and the states. -/
def entryCountPerPage : ℕ := 126

def pageEntryStatesOffset : ℕ := 32

def pageEntryOffset : ℕ := 64

/-- `KEY_NAME_MAX_SIZE`, the terminator included. -/
def keyNameMaxSize : ℕ := 16

def elementSmallMaxSize : ℕ := 8

def elementMiddleMaxSize : ℕ := 256

def elementBulkMaxSize : ℕ := 400 * 32

/-- `NAMESPACE_NULL_IDX`, the index of the namespace without a name. -/
def namespaceNullIdx : ℕ := 0xFE

def namespaceMaxCnt : ℕ := 253

def tagFragNoDefault : ℕ := 0x1F

def nvdsFlashMagic : ℕ := 0x4E564453

def nvdsFlashVersion : ℕ := 0xFFFF

def nvdsFlashInternalAddr : ℕ := 0x3FB000

def nvdsFlashInternalSize : ℕ := 0x4000

/-- The return codes other than `NVDS_OK` that the storage produces. -/
inductive NvdsErr
  | fail
  | invalParam
  | flashIoFail
  | notFound
  | invalidLength
  | noSpace
  deriving DecidableEq, Repr

/-! ### Tags -/

/-- `enum element_type`, with the codes that no name is given to. -/
inductive ElementType
  | small
  | middle
  | bulk
  | bulkinfo
  | unnamed (code : ℕ)
  | any
  deriving DecidableEq, Repr

/-- The code of an element type. -/
def ElementType.code : ElementType → ℕ
  | small => 0
  | middle => 1
  | bulk => 2
  | bulkinfo => 3
  | unnamed c => c
  | any => 7

/-- The element type of a code. -/
def ElementType.ofCode : ℕ → ElementType
  | 0 => small
  | 1 => middle
  | 2 => bulk
  | 3 => bulkinfo
  | 7 => any
  | c => unnamed c

def tagNamespaceGet (tag : ℕ) : ℕ := tag &&& 0xFF

def tagElementTypeGet (tag : ℕ) : ElementType := .ofCode ((tag &&& (0x7 <<< 13)) >>> 13)

def tagFragnoGet (tag : ℕ) : ℕ := (tag &&& (0x1F <<< 8)) >>> 8

/-- `tag_set`; the tag is a `uint16_t`. -/
def tagSet (ns : ℕ) (type : ElementType) (fragno : ℕ) : ℕ :=
  (ns ||| type.code <<< 13 ||| fragno <<< 8) % 2 ^ 16

section Tag

variable {ns fragno : ℕ} {type : ElementType}

theorem tagSet_eq (hns : ns < 256) (hfrag : fragno < 32) (htype : type.code < 8) :
    tagSet ns type fragno = type.code * 8192 + fragno * 256 + ns := by
  have h1 : fragno <<< 8 + ns = fragno <<< 8 ||| ns := Nat.shiftLeft_add_eq_or_of_lt hns fragno
  have hlt : fragno <<< 8 + ns < 2 ^ 13 := by
    omega
  have h2 := Nat.shiftLeft_add_eq_or_of_lt hlt type.code
  have hor : ns ||| type.code <<< 13 ||| fragno <<< 8 =
      type.code <<< 13 ||| (fragno <<< 8 ||| ns) := by
    rw [Nat.or_comm ns, Nat.or_assoc, Nat.or_comm ns]
  rw [tagSet, hor, ← h1, ← h2, Nat.shiftLeft_eq, Nat.shiftLeft_eq]
  omega

theorem tagNamespaceGet_tagSet (hns : ns < 256) (hfrag : fragno < 32) (htype : type.code < 8) :
    tagNamespaceGet (tagSet ns type fragno) = ns := by
  rw [tagNamespaceGet, tagSet_eq hns hfrag htype, show 0xFF = 2 ^ 8 - 1 from rfl,
    Nat.and_two_pow_sub_one_eq_mod]
  omega

theorem tagElementTypeGet_tagSet (hns : ns < 256) (hfrag : fragno < 32)
    (htype : type.code < 8) :
    tagElementTypeGet (tagSet ns type fragno) = .ofCode type.code := by
  have hmask : (0x7 <<< 13 : ℕ) >>> 13 = 2 ^ 3 - 1 := rfl
  rw [tagElementTypeGet, tagSet_eq hns hfrag htype, Nat.shiftRight_and_distrib, hmask,
    Nat.and_two_pow_sub_one_eq_mod, Nat.shiftRight_eq_div_pow]
  congr 1
  omega

theorem tagFragnoGet_tagSet (hns : ns < 256) (hfrag : fragno < 32) (htype : type.code < 8) :
    tagFragnoGet (tagSet ns type fragno) = fragno := by
  have hmask : (0x1F <<< 8 : ℕ) >>> 8 = 2 ^ 5 - 1 := rfl
  rw [tagFragnoGet, tagSet_eq hns hfrag htype, Nat.shiftRight_and_distrib, hmask,
    Nat.and_two_pow_sub_one_eq_mod, Nat.shiftRight_eq_div_pow]
  omega

theorem tagSet_lt (ns : ℕ) (type : ElementType) (fragno : ℕ) :
    tagSet ns type fragno < 256 ^ 2 := Nat.mod_lt _ (by norm_num)

end Tag

/-! ### Entries -/

/-- `union entry_info`: the 32 bytes of an entry, whose fields are views of them. -/
abbrev Entry := List UInt8

/-- The bytes of a field of an entry. -/
def Entry.field (e : Entry) (offset size : ℕ) : List UInt8 := (e.drop offset).take size

def Entry.tag (e : Entry) : ℕ := value (Entry.field e 0 2)

/-- `length`. -/
def Entry.len (e : Entry) : ℕ := value (Entry.field e 2 2)

/-- `crc32`. -/
def Entry.crc (e : Entry) : ℕ := value (Entry.field e 4 4)

/-- `key`, as the string it holds. A field without a terminator is longer than any key. -/
def Entry.key (e : Entry) : List UInt8 := fieldString (Entry.field e 8 keyNameMaxSize)

/-- `value`, the last 8 bytes. -/
def Entry.val (e : Entry) : List UInt8 := Entry.field e 24 8

/-- `varlen_info_t.datacrc32`. -/
def Entry.datacrc32 (e : Entry) : ℕ := value (Entry.field e 28 4)

/-- `bulk_info_t.bulksize`. -/
def Entry.bulksize (e : Entry) : ℕ := value (Entry.field e 28 4)

/-- The namespace index in the tag. -/
def Entry.ns (e : Entry) : ℕ := tagNamespaceGet (Entry.tag e)

/-- The element type in the tag. -/
def Entry.type (e : Entry) : ElementType := tagElementTypeGet (Entry.tag e)

/-- The fragment number in the tag. -/
def Entry.fragno (e : Entry) : ℕ := tagFragnoGet (Entry.tag e)

/-- `element_header_crc32_calc`: everything but the check itself. -/
def elementHeaderCrc32Calc (e : Entry) : ℕ :=
  (crc32 (Entry.field e 24 8) (crc32 (Entry.field e 8 keyNameMaxSize)
    (crc32 (Entry.field e 0 4) 0))).toNat

def elementDataCrc32Calc (data : List UInt8) : ℕ := (crc32 data 0).toNat

/-- The entries a length takes, `(length + ENTRY_SIZE - 1) / ENTRY_SIZE`. -/
def entriesOf (length : ℕ) : ℕ := (length + entrySize - 1) / entrySize

/-- The entries behind a header that belong to it, by its type and length. -/
def Entry.dataCnt (e : Entry) : ℕ :=
  match Entry.type e with
  | .middle => entriesOf (Entry.len e)
  | .bulk => entriesOf (Entry.len e)
  | _ => 0

/-- An entry with the given fields; the key field is padded as `memset` left it. -/
def Entry.layout (tag length crc : ℕ) (key : CString) (val : List UInt8) : Entry :=
  bytes 2 tag ++ bytes 2 length ++ bytes 4 crc ++
    (key.bytes ++ 0 :: List.replicate (keyNameMaxSize - 1 - key.len) 0xFF) ++ val

/-- A header as the puts build it: the fields, and then the check over them. -/
def newEntry (tag length : ℕ) (key : CString) (val : List UInt8) : Entry :=
  Entry.layout tag length (elementHeaderCrc32Calc (Entry.layout tag length 0xFFFFFFFF key val))
    key val

/-- The value field of a header that carries a 32-bit number in its second half. -/
def infoVal (n : ℕ) : List UInt8 := List.replicate 4 0xFF ++ bytes 4 n

/-- The value field of a small element: the value, padded as `memset` left it. -/
def smallVal (v : List UInt8) : List UInt8 :=
  v ++ List.replicate (elementSmallMaxSize - v.length) 0xFF

section Fields

variable {tag length crc : ℕ} {key : CString} {val : List UInt8}

theorem field_append_left {o : ℕ} (h : o + n ≤ a.length) :
    Entry.field (a ++ b) o n = Entry.field a o n := by
  rw [Entry.field, Entry.field, drop_append_of_le_length (by omega),
    take_append_of_le_length (by rw [length_drop]; omega)]

theorem field_append_right {o : ℕ} (h : a.length = o) :
    Entry.field (a ++ b) o n = b.take n := by
  rw [Entry.field, drop_left' h]

theorem length_keyField (key : CString) (hkey : key.len < keyNameMaxSize) :
    (key.bytes ++ 0 :: List.replicate (keyNameMaxSize - 1 - key.len) (0xFF : UInt8)).length =
      keyNameMaxSize := by
  simp only [length_append, length_cons, length_replicate]
  simp only [CString.len, keyNameMaxSize] at *
  omega

theorem length_layout (hkey : key.len < keyNameMaxSize) (hval : val.length = 8) :
    (Entry.layout tag length crc key val).length = entrySize := by
  rw [Entry.layout, length_append, length_append, length_keyField key hkey, hval]
  simp [keyNameMaxSize, entrySize]

theorem tag_layout (htag : tag < 256 ^ 2) :
    Entry.tag (Entry.layout tag length crc key val) = tag := by
  rw [Entry.tag, Entry.layout, append_assoc, append_assoc, append_assoc,
    field_append_left (by simp), Entry.field, drop_zero, take_of_length_le (by simp),
    value_bytes htag]

theorem len_layout (hlen : length < 256 ^ 2) :
    Entry.len (Entry.layout tag length crc key val) = length := by
  rw [Entry.len, Entry.layout, append_assoc, append_assoc, append_assoc,
    field_append_right (by simp), take_left' (by simp), value_bytes hlen]

theorem crc_layout (hcrc : crc < 256 ^ 4) :
    Entry.crc (Entry.layout tag length crc key val) = crc := by
  rw [Entry.crc, Entry.layout, append_assoc, append_assoc,
    field_append_right (by simp), take_left' (by simp), value_bytes hcrc]

theorem keyField_layout (hkey : key.len < keyNameMaxSize) :
    Entry.field (Entry.layout tag length crc key val) 8 keyNameMaxSize =
      key.bytes ++ 0 :: List.replicate (keyNameMaxSize - 1 - key.len) 0xFF := by
  rw [Entry.layout, append_assoc, field_append_right (by simp),
    take_left' (length_keyField key hkey)]

theorem key_layout (hkey : key.len < keyNameMaxSize) :
    Entry.key (Entry.layout tag length crc key val) = key.bytes := by
  rw [Entry.key, keyField_layout hkey, fieldString_append]

theorem val_layout (hkey : key.len < keyNameMaxSize) (hval : val.length = 8) :
    Entry.field (Entry.layout tag length crc key val) 24 8 = val := by
  rw [Entry.layout, field_append_right, take_of_length_le (by omega)]
  rw [length_append, length_keyField key hkey]
  simp [keyNameMaxSize]

/-- The check does not read its own field. -/
theorem headerCrc_layout (hkey : key.len < keyNameMaxSize) (hval : val.length = 8) (c : ℕ) :
    elementHeaderCrc32Calc (Entry.layout tag length crc key val) =
      elementHeaderCrc32Calc (Entry.layout tag length c key val) := by
  have h0 : ∀ x, Entry.field (Entry.layout tag length x key val) 0 4 =
      bytes 2 tag ++ bytes 2 length := by
    intro x
    rw [Entry.layout, append_assoc, append_assoc, field_append_left (by simp),
      Entry.field, drop_zero, take_of_length_le (by simp)]
  rw [elementHeaderCrc32Calc, elementHeaderCrc32Calc, h0, h0, keyField_layout hkey,
    keyField_layout hkey, val_layout hkey hval, val_layout hkey hval]

theorem elementHeaderCrc32Calc_lt (e : Entry) : elementHeaderCrc32Calc e < 256 ^ 4 :=
  UInt32.toNat_lt _

/-- **A new header passes its own check.** -/
theorem crc_newEntry (hkey : key.len < keyNameMaxSize) (hval : val.length = 8) :
    Entry.crc (newEntry tag length key val) =
      elementHeaderCrc32Calc (newEntry tag length key val) := by
  rw [newEntry, crc_layout (elementHeaderCrc32Calc_lt _)]
  exact headerCrc_layout hkey hval _

end Fields

/-! ### Page headers -/

def pageUninitialized : ℕ := 0xffff

def pageActive : ℕ := 0xfffe

def pageFull : ℕ := 0xfffc

def pageCandidate : ℕ := 0xfff8

def pageError : ℕ := 0xfff0

def pageInvalid : ℕ := 0

/-- `struct page_header`. -/
structure PageHeader where
  magic : ℕ
  version : ℕ
  /-- `state`, any `uint16_t` on a damaged page. -/
  state : ℕ
  seqno : ℕ
  /-- `rsv`, 16 bytes. -/
  rsv : List UInt8
  /-- `crc32`. -/
  crc : ℕ

/-- `page_header_crc32_calc`: everything but the state and the check itself. -/
def pageHeaderCrc32Calc (h : PageHeader) : ℕ :=
  (crc32 (bytes 4 h.seqno ++ h.rsv) (crc32 (bytes 4 h.magic ++ bytes 2 h.version) 0)).toNat

/-- The header in memory. -/
def PageHeader.encode (h : PageHeader) : List UInt8 :=
  bytes 4 h.magic ++ (bytes 2 h.version ++ (bytes 2 h.state ++ (bytes 4 h.seqno ++
    (h.rsv ++ bytes 4 h.crc))))

/-- The header of some bytes. -/
def PageHeader.decode (bs : List UInt8) : PageHeader where
  magic := value (Entry.field bs 0 4)
  version := value (Entry.field bs 4 2)
  state := value (Entry.field bs 6 2)
  seqno := value (Entry.field bs 8 4)
  rsv := Entry.field bs 12 16
  crc := value (Entry.field bs 28 4)

/-- The header after `page_clear`. -/
def PageHeader.blank : PageHeader :=
  ⟨0xFFFFFFFF, 0xFFFF, pageUninitialized, 0xFFFFFFFF, List.replicate 16 0xFF, 0xFFFFFFFF⟩

/-- The fields of a header fit their widths. -/
structure PageHeader.InRange (h : PageHeader) : Prop where
  magic_lt : h.magic < 256 ^ 4
  version_lt : h.version < 256 ^ 2
  state_lt : h.state < 256 ^ 2
  seqno_lt : h.seqno < 256 ^ 4
  length_rsv : h.rsv.length = 16
  crc_lt : h.crc < 256 ^ 4

/-- The header of a page in the given state with the given sequence number, as
`new_page_request` builds it; the state is not part of the check. -/
def pageHeader (state seqno : ℕ) : PageHeader :=
  let h : PageHeader := ⟨nvdsFlashMagic, nvdsFlashVersion, state, seqno, List.replicate 16 0xFF, 0⟩
  { h with crc := pageHeaderCrc32Calc h }

theorem pageHeaderCrc32Calc_lt (h : PageHeader) : pageHeaderCrc32Calc h < 256 ^ 4 :=
  UInt32.toNat_lt _

theorem pageHeader_inRange {state seqno : ℕ} (hs : state < 256 ^ 2) (hn : seqno < 256 ^ 4) :
    (pageHeader state seqno).InRange :=
  ⟨show nvdsFlashMagic < 256 ^ 4 by decide, show nvdsFlashVersion < 256 ^ 2 by decide, hs, hn, rfl,
    pageHeaderCrc32Calc_lt _⟩

theorem pageHeader_crc (state seqno : ℕ) :
    (pageHeader state seqno).crc = pageHeaderCrc32Calc (pageHeader state seqno) := rfl

theorem PageHeader.length_encode {h : PageHeader} (hr : h.rsv.length = 16) :
    h.encode.length = entrySize := by
  simp [PageHeader.encode, hr, entrySize]

/-- Leaving out a field in front. -/
theorem field_skip {m : ℕ} (h : a.length = m) (o n : ℕ) :
    Entry.field (a ++ b) (m + o) n = Entry.field b o n := by
  rw [Entry.field, Entry.field, ← drop_drop, drop_left' h]

theorem field_head (h : a.length = n) :
    Entry.field (a ++ b) 0 n = a := by
  rw [Entry.field, drop_zero, take_left' h]

/-- **A header is read back.** -/
theorem PageHeader.decode_encode {h : PageHeader} (hr : h.InRange) : decode h.encode = h := by
  obtain ⟨magic, version, state, seqno, rsv, crc⟩ := h
  obtain ⟨hm, hv, hs, hn, hl, hc⟩ := hr
  have h4 : ∀ v, (bytes 4 v).length = 4 := length_bytes 4
  have h2 : ∀ v, (bytes 2 v).length = 2 := length_bytes 2
  have e4 := fun b o n => field_skip (b := b) (h4 magic) o n
  have e6 := fun b o n => field_skip (b := b) (h2 version) o n
  have e8 := fun b o n => field_skip (b := b) (h2 state) o n
  have e12 := fun b o n => field_skip (b := b) (h4 seqno) o n
  have e28 := fun b o n => field_skip (b := b) hl o n
  simp only [decode, encode, PageHeader.mk.injEq]
  refine ⟨?_, ?_, ?_, ?_, ?_, ?_⟩
  · rw [field_head (h4 _), value_bytes hm]
  · rw [e4 _ 0 2, field_head (h2 _), value_bytes hv]
  · rw [e4 _ 2 2, e6 _ 0 2, field_head (h2 _), value_bytes hs]
  · rw [e4 _ 4 4, e6 _ 2 4, e8 _ 0 4, field_head (h4 _), value_bytes hn]
  · rw [e4 _ 8 16, e6 _ 6 16, e8 _ 4 16, e12 _ 0 16, field_head hl]
  · rw [e4 _ 24 4, e6 _ 22 4, e8 _ 20 4, e12 _ 16 4, e28 _ 0 4, Entry.field, drop_zero,
      take_of_length_le (by rw [h4]), value_bytes hc]

end Nvds

end Gd32
