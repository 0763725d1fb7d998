import Gd32Firmware.Ble.Requests
import Gd32Firmware.Lib.LittleEndian
import Mathlib.Data.List.Forall2

/-!
# The tables of the GATT services

`tuya_hal_gatts_service_add` of `tuya_ble_hal.c` counts the attributes of a service, allocates a table
for them, fills it in and puts it into a message; the handler of the message goes through the table
again to find the client configurations, which it tells by the first two bytes of a UUID. These are
also the first two bytes of the UUID of a characteristic, whatever its length.

`Ble.gattTable_iff` says for which characteristics this does no harm.
-/

namespace Gd32

open List Option

variable {p : ℕ × ℕ} {r : SvcResult} {map : CccdMap}

namespace Ble

/-! ### Parameters -/

/-- `TKL_BLE_UUID_T`. -/
structure TklUuid where
  type : UuidLen
  /-- `uuid128`, in which the shorter UUIDs stand at the start. -/
  uuid128 : List UInt8
  length_uuid128 : uuid128.length = 16

/-- The number in the first two bytes of a UUID. -/
def uuid16 (uuid : List UInt8) : ℕ := LittleEndian.value (uuid.take 2)

/-- `TKL_BLE_CHAR_PARAMS_T`. -/
structure TklChar where
  charUuid : TklUuid
  property : ℕ
  permission : ℕ

/-- `property` has `NOTIFY` or `INDICATE`. -/
def TklChar.notifies (c : TklChar) : Bool := c.property &&& (0x10 ||| 0x20) ≠ 0

/-- `property` has `EXT_PROP`. -/
def TklChar.extProp (c : TklChar) : Bool := c.property &&& 0x80 ≠ 0

/-- What the lengths and the handles depend on. -/
def TklChar.params (c : TklChar) : CharParams :=
  ⟨uuid16 c.charUuid.uuid128, c.notifies, c.extProp⟩

/-- `TKL_BLE_SERVICE_PARAMS_T`. -/
structure TklService where
  svcUuid : TklUuid
  type : ServiceType
  /-- `p_char`. -/
  chars : List TklChar
  /-- `char_num` is a `uint8_t`. -/
  charNum_lt : chars.length < 256

/-! ### Attributes -/

/-- `ble_gatt_attr_desc_t`. -/
structure AttrDesc where
  uuid : List UInt8
  info : ℕ
  extInfo : ℕ

/-- An attribute of a new table, which is zero. -/
def zeroDesc : AttrDesc := ⟨List.replicate 16 0, 0, 0⟩

/-- A UUID in which the first two bytes are set. -/
def setUuid16 (n : ℕ) (uuid : List UInt8) : List UInt8 :=
  UInt8.ofNat n :: UInt8.ofNat (n / 256) :: uuid.drop 2

def propRd : ℕ := 0x0002

def propWr : ℕ := 0x0008

def optNoOffset : ℕ := 0x8000

/-- The bits of `property`, with those of `info` that they set. -/
def propBits : List (ℕ × ℕ) :=
  [(0x01, 0x0001), (0x02, 0x0002), (0x04, 0x0004), (0x08, 0x0008), (0x10, 0x0010), (0x20, 0x0020),
    (0x40, 0x0040)]

/-- `ATT_UUID` of the type of a UUID. -/
def attUuid : UuidLen → ℕ
  | .uuid16 => 0
  | .uuid32 => 1 <<< 14
  | .uuid128 => 2 <<< 14

/-- `SEC_LVL` of two bits of `permission`, the first of which asks for more, at a place of `info`. -/
def secLvl (authen encrypt lsb permission : ℕ) : ℕ :=
  if permission &&& authen ≠ 0 then 2 <<< lsb
  else if permission &&& encrypt ≠ 0 then 1 <<< lsb
  else 0

/-- `info` of the value of a characteristic. -/
def TklChar.info (c : TklChar) : ℕ :=
  (propBits.foldl (fun info b => if c.property &&& b.1 ≠ 0 then info ||| b.2 else info)
      (attUuid c.charUuid.type)) |||
    secLvl 0x20 0x08 8 c.permission ||| secLvl 0x40 0x10 10 c.permission

/-- `permission` has `PREPARE_WRITE`. -/
def TklChar.prepareWrite (c : TklChar) : Bool := c.permission &&& 0x80 ≠ 0

/-- The declaration of a service or a characteristic. -/
def declDesc (decl : ℕ) (a : AttrDesc) : AttrDesc := ⟨setUuid16 decl a.uuid, propRd, 0⟩

/-- The value of a characteristic. -/
def TklChar.valueDesc (c : TklChar) (a : AttrDesc) : AttrDesc where
  uuid := c.charUuid.uuid128
  info := a.info ||| c.info
  extInfo := charValueLen ||| if c.prepareWrite then 0 else optNoOffset

/-- The client configuration. -/
def cccdDesc (a : AttrDesc) : AttrDesc :=
  ⟨setUuid16 descClientCharCfg a.uuid, propRd ||| propWr, optNoOffset⟩

/-- The extended properties. -/
def TklChar.extDesc (c : TklChar) (a : AttrDesc) : AttrDesc where
  uuid := setUuid16 descCharExtProperties a.uuid
  info := propRd
  extInfo := optNoOffset ||| if c.prepareWrite then 1 else 0

/-! ### Filling a table -/

/-- A table that is being filled in. -/
structure Filling where
  table : List AttrDesc
  totalHandle : ℕ
  cccdNum : ℕ
  /-- The handles given to the characteristics so far. -/
  charHandles : List ℕ

/-- The next attribute is written, which is not possible behind the table. -/
def Filling.put (f : AttrDesc → AttrDesc) (s : Filling) : Option Filling :=
  (s.table[s.totalHandle]?).map fun a =>
    { s with table := s.table.set s.totalHandle (f a), totalHandle := s.totalHandle + 1 }

/-- The handle of the next attribute is that of a characteristic. -/
def Filling.noteHandle (svcHandle : ℕ) (s : Filling) : Filling :=
  { s with charHandles := s.charHandles ++ [(svcHandle + s.totalHandle) % 65536] }

/-- The client configuration, if there is to be one. -/
def Filling.putCccd (c : TklChar) (s : Filling) : Option Filling :=
  if c.notifies then (s.put cccdDesc).map fun s => { s with cccdNum := s.cccdNum + 1 } else some s

/-- The extended properties, if there are to be any. -/
def Filling.putExt (c : TklChar) (s : Filling) : Option Filling :=
  if c.extProp then s.put c.extDesc else some s

/-- The attributes of a characteristic. -/
def Filling.putChar (svcHandle : ℕ) (c : TklChar) (s : Filling) : Option Filling :=
  (s.put (declDesc declCharacteristic)).bind fun s =>
    ((s.noteHandle svcHandle).put c.valueDesc).bind fun s =>
      (s.putCccd c).bind fun s => s.putExt c

/-- The attributes of all characteristics, one after the other. -/
def Filling.putChars (svcHandle : ℕ) : List TklChar → Filling → Option Filling
  | [], s => some s
  | c :: cs, s => (s.putChar svcHandle c).bind (putChars svcHandle cs)

/-! ### Adding services -/

/-- `ble_gatts_add_srvs_t`. -/
structure AddSrvs where
  uuidLen : UuidLen
  uuid128 : List UInt8
  startHandle : ℕ
  totalHandles : ℕ
  cccdNum : ℕ
  table : List AttrDesc
  /-- `attr_handle_tuple`. -/
  attrs : List (ℕ × ℕ)

/-- A service to be added, and what happens on the way. -/
structure SvcCase where
  svc : TklService
  memTable : Bool
  /-- There is memory for what is noted of the attributes. -/
  memInfo : Bool
  sent : Bool
  /-- The number that the stack gives the service. -/
  srvId : Option ℕ
  /-- There is memory for the map of the client configurations. -/
  memMap : Bool

/-- What comes of a service. -/
structure SvcResult where
  /-- `handle` of the service, if it is set. -/
  handle : Option ℕ
  /-- `handle` of its characteristics, as far as they are set. -/
  charHandles : List ℕ
  msg : Option AddSrvs

/-- One pass of the loop of `tuya_hal_gatts_service_add`, with `srv_add_handle`; nothing is the result
when it writes behind a table. -/
def addOne (k : SvcCase) (srvAddHandle : ℕ) : Option (ℕ × SvcResult) :=
  let total := 1 + calcCharHandleNum (k.svc.chars.map TklChar.params)
  if k.memTable = false ∨ k.memInfo = false then some (srvAddHandle, ⟨none, [], none⟩)
  else
    let next := (srvAddHandle + total) % 65536
    match k.svc.type.decl with
    | none => some (next, ⟨some srvAddHandle, [], none⟩)
    | some decl =>
      ((Filling.put (declDesc decl) ⟨List.replicate total zeroDesc, 0, 0, []⟩).bind
        (Filling.putChars srvAddHandle k.svc.chars)).map fun s =>
        if k.sent then
          (next, ⟨some srvAddHandle, s.charHandles,
            some
              { uuidLen := k.svc.svcUuid.type
                uuid128 := k.svc.svcUuid.uuid128
                startHandle := srvAddHandle
                totalHandles := total
                cccdNum := s.cccdNum
                table := s.table
                attrs := s.charHandles.map fun h => (h, charValueLen) }⟩)
        else ((next + 65536 - s.totalHandle) % 65536, ⟨some 0xFFFF, s.charHandles, none⟩)

def tuyaHalGattsServiceAdd : List SvcCase → ℕ → Option (ℕ × List SvcResult)
  | [], srvAddHandle => some (srvAddHandle, [])
  | k :: ks, srvAddHandle =>
    (addOne k srvAddHandle).bind fun r =>
      (tuyaHalGattsServiceAdd ks r.1).map fun t => (t.1, r.2 :: t.2)

/-! ### The client configurations -/

/-- `ble_cccd_info_t`. -/
structure CccdMap where
  srvId : ℕ
  svcHandle : ℕ
  /-- The number of entries there is room for. -/
  room : ℕ
  /-- `cccd_handle_tuple`, with `cccd_num` entries. -/
  tuples : List ℕ

/-- What `handle_gatts_msg` does with an attribute: it has `char_handle` and the entries so far. -/
def cccdStep (svcHandle : ℕ) (s : ℕ × List ℕ) (x : AttrDesc × ℕ) : ℕ × List ℕ :=
  if uuid16 x.1.uuid = declCharacteristic then ((svcHandle + x.2 + 1) % 65536, s.2)
  else if uuid16 x.1.uuid = descClientCharCfg then
    (s.1, s.2 ++ [(svcHandle + x.2) ||| (s.1 <<< 16)])
  else s

/-- The entries for a table. -/
def cccdTuples (svcHandle : ℕ) (table : List AttrDesc) : List ℕ :=
  (table.zipIdx.foldl (cccdStep svcHandle) (0, [])).2

/-- `GATTS_SUBTYPE_ADD_SRVS`: the map that is built, if the stack takes the service and there is
memory. -/
def AddSrvs.cccdMap (m : AddSrvs) (srvId : Option ℕ) (mem : Bool) : Option CccdMap :=
  match srvId with
  | none => none
  | some id =>
    if mem then some ⟨id, m.startHandle, m.cccdNum, cccdTuples m.startHandle m.table⟩ else none

/-- The map of a service. -/
def SvcCase.cccdMap (k : SvcCase) (r : SvcResult) : Option CccdMap :=
  r.msg.bind fun m => m.cccdMap k.srvId k.memMap

/-- The maps of all services, in the order of `srv_cccd_list`. -/
def cccdMaps (ks : List SvcCase) (rs : List SvcResult) : List CccdMap :=
  (ks.zip rs).filterMap fun x => x.1.cccdMap x.2

/-- The entry of a map for a handle, as `is_cccd` and `get_char_handle_by_cccd_handle` look for it. -/
def findTuple (maps : List CccdMap) (svcId handle : ℕ) : Option ℕ :=
  (maps.find? (·.srvId = svcId)).bind fun k => k.tuples.find? (· &&& 0xFFFF = handle)

/-- `is_cccd`, for the handle of a client configuration. -/
def isCccdHandle (maps : List CccdMap) (svcId handle : ℕ) : Bool :=
  (findTuple maps svcId handle).isSome

def getCharHandleByCccdHandle (maps : List CccdMap) (svcId handle : ℕ) : ℕ :=
  ((findTuple maps svcId handle).map fun t => (t >>> 16) &&& 0xFFFF).getD 0

/-! ### What is to be so -/

/-- The attributes of a characteristic. -/
def TklChar.attrs (c : TklChar) : List AttrDesc :=
  [declDesc declCharacteristic zeroDesc, c.valueDesc zeroDesc] ++
    (if c.notifies then [cccdDesc zeroDesc] else []) ++
      if c.extProp then [c.extDesc zeroDesc] else []

/-- The attributes of a service. -/
def TklService.attrs (decl : ℕ) (svc : TklService) : List AttrDesc :=
  declDesc decl zeroDesc :: (svc.chars.map TklChar.attrs).flatten

/-- Where the value of a characteristic stands in the table. -/
def TklService.valueIndex (svc : TklService) (j : ℕ) : ℕ :=
  1 + ((svc.chars.take j).map fun c => c.attrs.length).sum + 1

/-- The client configurations and the values of the characteristics they belong to, by their handles;
the first characteristic starts at `n`. -/
def cccdPairs : ℕ → List TklChar → List (ℕ × ℕ)
  | _, [] => []
  | n, c :: cs => (if c.notifies then [(n + 2, n + 1)] else []) ++ cccdPairs (n + c.attrs.length) cs

/-- A table is filled in: its attributes are those of the service, as many as were counted, and every
characteristic is told the handle of its value. -/
structure TableRight (svc : TklService) (r : SvcResult) (m : AddSrvs) : Prop where
  filled : ∃ decl ∈ svc.type.decl, m.table = svc.attrs decl
  counted : m.totalHandles = 1 + calcCharHandleNum (svc.chars.map TklChar.params) ∧
    m.table.length = m.totalHandles
  service : r.handle = some m.startHandle
  values : ∀ j c, svc.chars[j]? = some c →
    r.charHandles[j]? = some (m.startHandle + svc.valueIndex j) ∧
      m.table[svc.valueIndex j]? = some (c.valueDesc zeroDesc)

/-- A map is right: it has room for its entries, these are the client configurations, each with its
value, and they are what is found. -/
structure MapRight (svc : TklService) (m : AddSrvs) (maps : List CccdMap) (k : CccdMap) : Prop where
  room : k.tuples.length ≤ k.room
  pairs : ∀ p, p ∈ k.tuples.map (fun t => (t &&& 0xFFFF, (t >>> 16) &&& 0xFFFF)) ↔
    p ∈ cccdPairs (m.startHandle + 1) svc.chars
  found : ∀ handle, isCccdHandle maps k.srvId handle = true ↔
    ∃ v, (handle, v) ∈ cccdPairs (m.startHandle + 1) svc.chars
  value : ∀ p ∈ cccdPairs (m.startHandle + 1) svc.chars,
    getCharHandleByCccdHandle maps k.srvId p.1 = p.2

/-- **The tables of the services are right**, they have handles of their own, and so are the maps that
are built from them. -/
structure TablesRight (ks : List SvcCase) (rs : List SvcResult) : Prop where
  tables : List.Forall₂ (fun k r => ∀ m ∈ r.msg, TableRight k.svc r m) ks rs
  disjoint : (rs.filterMap SvcResult.msg).Pairwise fun m m' =>
    m.startHandle + m.totalHandles ≤ m'.startHandle
  maps : List.Forall₂ (fun k r => ∀ m ∈ r.msg, ∀ map ∈ m.cccdMap k.srvId k.memMap,
    MapRight k.svc m (cccdMaps ks rs) map) ks rs

/-- The number of handles of a service. -/
def SvcCase.total (k : SvcCase) : ℕ := 1 + calcCharHandleNum (k.svc.chars.map TklChar.params)

/-- Where the handles of the next service start: one that is not sent gives its handles back. -/
def SvcCase.next (k : SvcCase) (start : ℕ) : ℕ :=
  if k.memTable = false ∨ k.memInfo = false ∨ (k.svc.type.decl.isSome ∧ k.sent = false) then start
  else start + k.total

/-- The handles of the services stay below `2 ^ 16`. -/
def HandlesFit : List SvcCase → ℕ → Prop
  | [], _ => True
  | k :: ks, start =>
    (k.memTable = true → k.memInfo = true → start + k.total ≤ 65536) ∧
      HandlesFit ks (k.next start)

/-- The UUID of a characteristic does not begin as that of a client configuration, and if it has one
not as that of a declaration either. -/
def TklChar.Plain (c : TklChar) : Prop :=
  uuid16 c.charUuid.uuid128 ≠ descClientCharCfg ∧
    (c.notifies = true → uuid16 c.charUuid.uuid128 ≠ declCharacteristic)

/-- A map is built for a service: all goes well on the way. -/
def SvcCase.Mapped (k : SvcCase) : Prop :=
  k.svc.type.decl.isSome ∧ k.memTable = true ∧ k.memInfo = true ∧ k.sent = true ∧
    k.srvId.isSome ∧ k.memMap = true

/-! ### Tables -/

section Filling

variable {done : List AttrDesc} {n k : ℕ} {hs : List ℕ} {svcHandle : ℕ}

/-- The table is filled in up to some place. -/
def Filling.upTo (done : List AttrDesc) (k n : ℕ) (hs : List ℕ) : Filling :=
  ⟨done ++ List.replicate k zeroDesc, done.length, n, hs⟩

theorem noteHandle_upTo :
    (Filling.upTo done k n hs).noteHandle svcHandle =
      .upTo done k n (hs ++ [(svcHandle + done.length) % 65536]) := rfl

theorem put_upTo (f : AttrDesc → AttrDesc) :
    (Filling.upTo done (k + 1) n hs).put f =
      some (.upTo (done ++ [f zeroDesc]) k n hs) := by
  have hlookup : (done ++ List.replicate (k + 1) zeroDesc)[done.length]? = some zeroDesc := by
    rw [List.getElem?_append_right (Nat.le_refl _), Nat.sub_self, replicate_succ]
    rfl
  rw [Filling.put, Filling.upTo, hlookup, map_some, Filling.upTo, length_append,
    set_append_right _ _ (Nat.le_refl _), Nat.sub_self, replicate_succ, set_cons_zero,
    append_assoc]
  rfl

theorem length_attrs (c : TklChar) :
    c.attrs.length = 2 + (if c.notifies then 1 else 0) + if c.extProp then 1 else 0 := by
  rw [TklChar.attrs]
  cases c.notifies <;> cases c.extProp <;> rfl

theorem putCccd_upTo (c : TklChar) :
    (Filling.upTo done (k + if c.notifies then 1 else 0) n hs).putCccd c =
      some (.upTo (done ++ if c.notifies then [cccdDesc zeroDesc] else []) k
        (n + if c.notifies then 1 else 0) hs) := by
  rw [Filling.putCccd]
  cases c.notifies with
  | false => simp only [Bool.false_eq_true, if_false, Nat.add_zero, append_nil]
  | true =>
    simp only [if_true, put_upTo, map_some]
    rfl

theorem putExt_upTo (c : TklChar) :
    (Filling.upTo done (k + if c.extProp then 1 else 0) n hs).putExt c =
      some (.upTo (done ++ if c.extProp then [c.extDesc zeroDesc] else []) k n hs) := by
  rw [Filling.putExt]
  cases c.extProp with
  | false => simp only [Bool.false_eq_true, if_false, Nat.add_zero, append_nil]
  | true => simp only [if_true, put_upTo]

/-- **A characteristic** fills in its attributes. -/
theorem putChar_upTo (c : TklChar) :
    (Filling.upTo done (k + c.attrs.length) n hs).putChar svcHandle c =
      some (.upTo (done ++ c.attrs) k (n + if c.notifies then 1 else 0)
        (hs ++ [(svcHandle + (done.length + 1)) % 65536])) := by
  have hlength : k + c.attrs.length =
      k + (if c.extProp then 1 else 0) + (if c.notifies then 1 else 0) + 1 + 1 := by
    rw [length_attrs]
    omega
  rw [hlength, Filling.putChar, put_upTo, bind_some, noteHandle_upTo, put_upTo,
    bind_some, putCccd_upTo, bind_some, putExt_upTo, TklChar.attrs,
    length_append, length_singleton]
  simp only [append_assoc, cons_append, nil_append]

/-- The handles of the characteristics. -/
def charHandlesFrom (svcHandle : ℕ) : ℕ → List TklChar → List ℕ
  | _, [] => []
  | n, c :: cs => (svcHandle + (n + 1)) % 65536 ::
      charHandlesFrom svcHandle (n + c.attrs.length) cs

/-- **All characteristics** fill in their attributes, one after the other. -/
theorem putChars_upTo (cs : List TklChar) :
    (Filling.upTo done (k + (cs.map TklChar.attrs).flatten.length) n hs).putChars svcHandle cs =
      some (.upTo (done ++ (cs.map TklChar.attrs).flatten) k (n + cs.countP TklChar.notifies)
        (hs ++ charHandlesFrom svcHandle done.length cs)) := by
  induction cs generalizing done n hs with
  | nil =>
    rw [map_nil, flatten_nil, length_nil, Nat.add_zero, append_nil,
      charHandlesFrom, append_nil]
    rfl
  | cons c cs ih =>
    have hlength : k + ((c :: cs).map TklChar.attrs).flatten.length =
        k + (cs.map TklChar.attrs).flatten.length + c.attrs.length := by
      rw [map_cons, flatten_cons, length_append]
      omega
    rw [hlength, Filling.putChars, putChar_upTo, bind_some, ih, length_append,
      countP_cons, map_cons, flatten_cons, charHandlesFrom]
    simp only [append_assoc, cons_append, nil_append, Nat.add_assoc,
      Nat.add_comm (List.countP _ _)]

end Filling

/-! ### One service -/

section Service

variable {svc : TklService} {k : SvcCase} {start : ℕ}

theorem length_flatten_attrs (cs : List TklChar) :
    (cs.map TklChar.attrs).flatten.length = calcCharHandleNum (cs.map TklChar.params) := by
  rw [calcCharHandleNum, length_flatten, List.map_map, List.map_map]
  congr 1
  exact map_congr_left fun c _ => length_attrs c

theorem length_service_attrs (decl : ℕ) :
    (svc.attrs decl).length = 1 + calcCharHandleNum (svc.chars.map TklChar.params) := by
  rw [TklService.attrs, length_cons, length_flatten_attrs, Nat.add_comm]

/-- The table of a service, filled in. -/
theorem putService (decl svcHandle : ℕ) :
    (Filling.put (declDesc decl)
        ⟨List.replicate (1 + calcCharHandleNum (svc.chars.map TklChar.params)) zeroDesc, 0, 0, []⟩).bind
      (Filling.putChars svcHandle svc.chars) =
    some (.upTo (svc.attrs decl) 0 (svc.chars.countP TklChar.notifies)
      (charHandlesFrom svcHandle 1 svc.chars)) := by
  have hstart : (⟨List.replicate (1 + calcCharHandleNum (svc.chars.map TklChar.params)) zeroDesc,
      0, 0, []⟩ : Filling) =
      .upTo [] ((0 + (svc.chars.map TklChar.attrs).flatten.length) + 1) 0 [] := by
    rw [Filling.upTo, nil_append, length_flatten_attrs, Nat.zero_add, Nat.add_comm]
    rfl
  rw [hstart, put_upTo, bind_some, putChars_upTo, TklService.attrs]
  simp only [nil_append, cons_append, Nat.zero_add, length_singleton]

/-- The handles are those of the values. -/
theorem getElem?_charHandlesFrom {n j : ℕ} {cs : List TklChar} {c : TklChar} (hj : cs[j]? = some c)
    (hfit : start + n + (cs.map TklChar.attrs).flatten.length ≤ 65536) :
    (charHandlesFrom start n cs)[j]? =
      some (start + (n + ((cs.take j).map fun c => c.attrs.length).sum + 1)) := by
  induction cs generalizing n j with
  | nil => cases hj
  | cons d cs ih =>
    have hd : 2 ≤ d.attrs.length := by
      rw [length_attrs]
      omega
    rw [map_cons, flatten_cons, length_append] at hfit
    rw [charHandlesFrom]
    cases j with
    | zero =>
      rw [List.getElem?_cons_zero, take_zero, map_nil, sum_nil, Nat.add_zero,
        Nat.mod_eq_of_lt (by omega)]
      rfl
    | succ j =>
      rw [List.getElem?_cons_succ] at hj ⊢
      rw [ih hj (by omega), take_succ_cons, map_cons, sum_cons]
      congr 1
      omega

/-- The value of a characteristic stands where it should. -/
theorem getElem?_attrs {j : ℕ} {cs : List TklChar} {c : TklChar} (hj : cs[j]? = some c) :
    (cs.map TklChar.attrs).flatten[((cs.take j).map fun c => c.attrs.length).sum + 1]? =
      some (c.valueDesc zeroDesc) := by
  induction cs generalizing j with
  | nil => cases hj
  | cons d cs ih =>
    rw [map_cons, flatten_cons]
    cases j with
    | zero =>
      cases hj
      rfl
    | succ j =>
      rw [take_succ_cons, map_cons, sum_cons, List.getElem?_append_right (by omega)]
      rw [← ih hj]
      congr 1
      omega

/-- **What becomes of one service**: if it is sent its table is right. -/
theorem addOne_eq (hfit : k.memTable = true → k.memInfo = true → start + k.total ≤ 65536) :
    ∃ r, addOne k (start % 65536) = some (k.next start % 65536, r) ∧
      (r.msg.isSome ↔ k.svc.type.decl.isSome ∧ k.memTable = true ∧ k.memInfo = true ∧
        k.sent = true) ∧
      ∀ m ∈ r.msg, TableRight k.svc r m ∧ m.startHandle = start ∧
        m.startHandle + m.totalHandles = k.next start ∧ k.next start ≤ 65536 ∧
        m.cccdNum = k.svc.chars.countP TklChar.notifies := by
  by_cases hmem : k.memTable = false ∨ k.memInfo = false
  · refine ⟨⟨none, [], none⟩, ?_, ?_, nofun⟩
    · rw [addOne, if_pos hmem, SvcCase.next, if_pos (hmem.elim .inl fun h => .inr (.inl h))]
    · refine iff_of_false nofun fun h => ?_
      rw [h.2.1, h.2.2.1] at hmem
      exact hmem.elim nofun nofun
  · have hmem' := hmem
    rw [not_or, Bool.not_eq_false, Bool.not_eq_false] at hmem
    obtain ⟨hmemTable, hmemInfo⟩ := hmem
    have hle := hfit hmemTable hmemInfo
    have htotal : k.total = 1 + calcCharHandleNum (k.svc.chars.map TklChar.params) := rfl
    have hstart : start % 65536 = start := Nat.mod_eq_of_lt (by omega)
    rw [addOne, if_neg hmem', hstart, ← htotal]
    cases hdecl : k.svc.type.decl with
    | none =>
      refine ⟨⟨some start, [], none⟩, ?_, iff_of_false nofun (by simp), nofun⟩
      rw [SvcCase.next, hmemTable, hmemInfo, hdecl, if_neg (by simp)]
    | some decl =>
      dsimp only
      rw [htotal, putService, map_some, ← htotal]
      cases hsent : k.sent with
      | false =>
        have hnext : k.next start = start := by
          rw [SvcCase.next, if_pos (.inr (.inr ⟨by rw [hdecl]; rfl, hsent⟩))]
        refine ⟨⟨some 0xFFFF, charHandlesFrom start 1 k.svc.chars, none⟩, ?_,
          iff_of_false nofun (by simp), nofun⟩
        have hback : ((start + k.total) % 65536 + 65536 - (k.svc.attrs decl).length) % 65536 =
            k.next start % 65536 := by
          rw [length_service_attrs, ← htotal, hnext]
          omega
        rw [if_neg nofun, ← hback]
        rfl
      | true =>
        have hnext : k.next start = start + k.total := by
          rw [SvcCase.next, hmemTable, hmemInfo, hsent, if_neg (by simp)]
        refine ⟨⟨some start, charHandlesFrom start 1 k.svc.chars,
          some ⟨k.svc.svcUuid.type, k.svc.svcUuid.uuid128, start, k.total,
            k.svc.chars.countP TklChar.notifies, k.svc.attrs decl,
            (charHandlesFrom start 1 k.svc.chars).map fun h => (h, charValueLen)⟩⟩, ?_,
          iff_of_true rfl ⟨rfl, hmemTable, hmemInfo, rfl⟩, ?_⟩
        · rw [if_pos rfl, hnext, Filling.upTo, replicate_zero, append_nil]
        · intro m hm
          cases hm
          refine ⟨⟨⟨decl, hdecl, rfl⟩, ⟨htotal, ?_⟩, rfl, fun j c hj => ⟨?_, ?_⟩⟩, rfl, hnext.symm,
            hnext ▸ hle, rfl⟩
          · rw [length_service_attrs, htotal]
          · rw [getElem?_charHandlesFrom hj (by rw [length_flatten_attrs]; omega)]
            rfl
          · rw [TklService.valueIndex, TklService.attrs, Nat.add_assoc, Nat.add_comm 1,
              List.getElem?_cons_succ, getElem?_attrs hj]

end Service

/-! ### The map of a service -/

section Map

variable {svcHandle i ch : ℕ} {acc : List ℕ} {cs : List TklChar}

/-- An entry of `cccd_handle_tuple`. -/
def tupleOf (p : ℕ × ℕ) : ℕ := p.1 ||| (p.2 <<< 16)

/-- What is read from an entry. -/
def tuplePair (t : ℕ) : ℕ × ℕ := (t &&& 0xFFFF, (t >>> 16) &&& 0xFFFF)

theorem tuplePair_tupleOf (h₁ : p.1 < 65536) (h₂ : p.2 < 65536) :
    tuplePair (tupleOf p) = p := by
  have hor : tupleOf p = p.2 * 2 ^ 16 + p.1 := by
    rw [tupleOf, Nat.or_comm, ← Nat.shiftLeft_add_eq_or_of_lt h₁, Nat.shiftLeft_eq]
  have hmask : ∀ n, n &&& 0xFFFF = n % 2 ^ 16 := fun n => Nat.and_two_pow_sub_one_eq_mod n 16
  rw [tuplePair, hmask, hmask, Nat.shiftRight_eq_div_pow, hor]
  refine Prod.ext ?_ ?_
  · omega
  · omega

/-- What the handler takes for the client configurations, and for their values. -/
def seenPairs : ℕ → List TklChar → List (ℕ × ℕ)
  | _, [] => []
  | n, c :: cs =>
    (if uuid16 c.charUuid.uuid128 = descClientCharCfg then [(n + 1, n + 1)] else []) ++
      (if c.notifies then
        [(n + 2, if uuid16 c.charUuid.uuid128 = declCharacteristic then n + 2 else n + 1)]
      else []) ++
        seenPairs (n + c.attrs.length) cs

theorem uuid16_declCharacteristic :
    uuid16 (declDesc declCharacteristic zeroDesc).uuid = declCharacteristic := by decide

theorem uuid16_cccd : uuid16 (cccdDesc zeroDesc).uuid = descClientCharCfg := by decide

theorem uuid16_ext (c : TklChar) : uuid16 (c.extDesc zeroDesc).uuid = descCharExtProperties := by
  show uuid16 (setUuid16 descCharExtProperties zeroDesc.uuid) = _
  decide

theorem cccdStep_decl :
    cccdStep svcHandle (ch, acc) (declDesc declCharacteristic zeroDesc, i) =
      ((svcHandle + i + 1) % 65536, acc) := by
  rw [cccdStep, if_pos uuid16_declCharacteristic]

theorem cccdStep_cccd :
    cccdStep svcHandle (ch, acc) (cccdDesc zeroDesc, i) =
      (ch, acc ++ [tupleOf (svcHandle + i, ch)]) := by
  rfl

theorem cccdStep_ext (c : TklChar) :
    cccdStep svcHandle (ch, acc) (c.extDesc zeroDesc, i) = (ch, acc) := by
  rw [cccdStep, if_neg (by rw [uuid16_ext]; decide), if_neg (by rw [uuid16_ext]; decide)]

/-- The value of a characteristic may be taken for a declaration or a client configuration. -/
theorem cccdStep_value (c : TklChar) :
    cccdStep svcHandle (ch, acc) (c.valueDesc zeroDesc, i) =
      (if uuid16 c.charUuid.uuid128 = declCharacteristic then (svcHandle + i + 1) % 65536 else ch,
        acc ++ if uuid16 c.charUuid.uuid128 = descClientCharCfg then [tupleOf (svcHandle + i, ch)]
          else []) := by
  have huuid : (c.valueDesc zeroDesc).uuid = c.charUuid.uuid128 := rfl
  rw [cccdStep, huuid]
  by_cases hdecl : uuid16 c.charUuid.uuid128 = declCharacteristic
  · rw [if_pos hdecl, if_pos hdecl, if_neg (by rw [hdecl]; decide), append_nil]
  · split_ifs
    · rfl
    · rw [append_nil]

/-- The attributes of one characteristic. -/
theorem foldl_attrs (ch : ℕ) (acc : List ℕ) (c : TklChar) (hfit : svcHandle + i + c.attrs.length ≤ 65536) :
    ∃ ch', (c.attrs.zipIdx i).foldl (cccdStep svcHandle) (ch, acc) =
      (ch', acc ++ ((if uuid16 c.charUuid.uuid128 = descClientCharCfg then
          [(svcHandle + i + 1, svcHandle + i + 1)] else []) ++
        (if c.notifies then [(svcHandle + i + 2,
          if uuid16 c.charUuid.uuid128 = declCharacteristic then svcHandle + i + 2
          else svcHandle + i + 1)] else [])).map tupleOf) := by
  rw [length_attrs] at hfit
  have hvalue : (svcHandle + i + 1) % 65536 = svcHandle + i + 1 := Nat.mod_eq_of_lt (by omega)
  have htuple : (if uuid16 c.charUuid.uuid128 = descClientCharCfg then
      [tupleOf (svcHandle + (i + 1), svcHandle + i + 1)] else []) =
      (if uuid16 c.charUuid.uuid128 = descClientCharCfg then
        [(svcHandle + i + 1, svcHandle + i + 1)] else []).map tupleOf := by
    split_ifs <;> rfl
  refine ⟨if uuid16 c.charUuid.uuid128 = declCharacteristic then (svcHandle + (i + 1) + 1) % 65536
    else svcHandle + i + 1, ?_⟩
  rw [TklChar.attrs, zipIdx_append, zipIdx_append, foldl_append, foldl_append,
    zipIdx_cons, foldl_cons, cccdStep_decl, zipIdx_cons, foldl_cons,
    cccdStep_value, zipIdx_nil, foldl_nil, hvalue, htuple, map_append,
    ← append_assoc]
  cases hn : c.notifies with
  | false =>
    cases c.extProp with
    | false => simp
    | true => simp [cccdStep_ext]
  | true =>
    rw [hn] at hfit
    simp only [if_true] at hfit
    have hnext : (svcHandle + (i + 1) + 1) % 65536 = svcHandle + i + 2 := by omega
    rw [hnext]
    cases c.extProp with
    | false => simp [cccdStep_cccd, Nat.add_assoc]
    | true => simp [cccdStep_cccd, cccdStep_ext, Nat.add_assoc]

/-- **All attributes**: the entries are what the handler takes for client configurations. -/
theorem foldl_flatten (ch : ℕ) (acc : List ℕ) (hfit : svcHandle + i + (cs.map TklChar.attrs).flatten.length ≤ 65536) :
    ∃ ch', ((cs.map TklChar.attrs).flatten.zipIdx i).foldl (cccdStep svcHandle) (ch, acc) =
      (ch', acc ++ (seenPairs (svcHandle + i) cs).map tupleOf) := by
  induction cs generalizing i ch acc with
  | nil =>
    refine ⟨ch, ?_⟩
    rw [seenPairs, map_nil, map_nil, append_nil]
    rfl
  | cons c cs ih =>
    rw [map_cons, flatten_cons, length_append] at hfit
    obtain ⟨ch', hc⟩ := @foldl_attrs svcHandle i ch acc c (by omega)
    rw [map_cons, flatten_cons, zipIdx_append, foldl_append, hc]
    obtain ⟨ch'', hcs⟩ := ih (i := i + c.attrs.length) ch' (acc ++ _) (by omega)
    refine ⟨ch'', hcs.trans ?_⟩
    rw [seenPairs, append_assoc, ← map_append, ← Nat.add_assoc svcHandle]

/-- The entries for the table of a service. -/
theorem cccdTuples_eq {svc : TklService} {decl start : ℕ} (hdecl : decl ∈ svc.type.decl)
    (hfit : start + (1 + calcCharHandleNum (svc.chars.map TklChar.params)) ≤ 65536) :
    cccdTuples start (svc.attrs decl) = (seenPairs (start + 1) svc.chars).map tupleOf := by
  have hservice : ∀ ch acc, cccdStep start (ch, acc) (declDesc decl zeroDesc, 0) = (ch, acc) := by
    intro ch acc
    cases htype : svc.type with
    | primary =>
      rw [htype] at hdecl
      cases hdecl
      rw [cccdStep, if_neg (by decide), if_neg (by decide)]
    | secondary =>
      rw [htype] at hdecl
      cases hdecl
      rw [cccdStep, if_neg (by decide), if_neg (by decide)]
    | other =>
      rw [htype] at hdecl
      cases hdecl
  obtain ⟨ch', h⟩ := @foldl_flatten start 1 svc.chars 0 [] (by rw [length_flatten_attrs]; omega)
  rw [cccdTuples, TklService.attrs, zipIdx_cons, foldl_cons, hservice, h]
  rfl

/-- All handles of entries lie in the range of the service. -/
theorem mem_seenPairs_lt {n : ℕ} (hp : p ∈ seenPairs n cs) :
    p.1 < n + (cs.map TklChar.attrs).flatten.length ∧
      p.2 < n + (cs.map TklChar.attrs).flatten.length := by
  induction cs generalizing n with
  | nil => cases hp
  | cons c cs ih =>
    have hc := length_attrs c
    rw [map_cons, flatten_cons, length_append]
    rw [seenPairs, mem_append, mem_append] at hp
    rcases hp with (hp | hp) | hp
    · split_ifs at hp
      · rw [mem_singleton.mp hp]
        constructor <;> dsimp only <;> omega
      · cases hp
    · by_cases hn : c.notifies = true
      · rw [if_pos hn] at hp hc
        rw [mem_singleton.mp hp]
        split_ifs <;> omega
      · rw [if_neg hn] at hp
        cases hp
    · have h := ih hp
      omega

/-- A client configuration stands right behind the value. -/
theorem mem_cccdPairs {n : ℕ} (hp : p ∈ cccdPairs n cs) : p.1 = p.2 + 1 ∧ n < p.2 := by
  induction cs generalizing n with
  | nil => cases hp
  | cons c cs ih =>
    rw [cccdPairs, mem_append] at hp
    rcases hp with hp | hp
    · split_ifs at hp
      · rw [mem_singleton.mp hp]
        exact ⟨rfl, Nat.lt_succ_self n⟩
      · cases hp
    · have h := ih hp
      omega

/-- **For plain characteristics** the handler takes for client configurations what is one. -/
theorem seenPairs_of_plain {n : ℕ} (h : ∀ c ∈ cs, c.Plain) : seenPairs n cs = cccdPairs n cs := by
  induction cs generalizing n with
  | nil => rfl
  | cons c cs ih =>
    obtain ⟨hcccd, hdecl⟩ := h c mem_cons_self
    rw [seenPairs, cccdPairs, if_neg hcccd, nil_append,
      ih fun d hd => h d (mem_cons_of_mem c hd)]
    by_cases hn : c.notifies = true
    · rw [if_pos hn, if_pos hn, if_neg (hdecl hn)]
    · rw [if_neg hn, if_neg hn]

/-- For one that is not plain it pairs a handle with itself. -/
theorem plain_of_seenPairs {n : ℕ} (h : ∀ p ∈ seenPairs n cs, p.1 = p.2 + 1) :
    ∀ c ∈ cs, c.Plain := by
  induction cs generalizing n with
  | nil => exact nofun
  | cons c cs ih =>
    rw [seenPairs] at h
    intro d hd
    rcases mem_cons.mp hd with rfl | hd
    · constructor
      · intro hcccd
        have hpair := h (n + 1, n + 1) (by
          rw [if_pos hcccd]
          exact mem_append_left _ (mem_append_left _ (mem_singleton_self _)))
        omega
      · intro hn hdecl
        have hpair := h (n + 2, n + 2) (by
          rw [if_pos hn, if_pos hdecl]
          exact mem_append_left _ (mem_append_right _ (mem_singleton_self _)))
        omega
    · exact ih (fun p hp => h p (mem_append_right _ hp)) d hd

theorem length_cccdPairs (n : ℕ) : (cccdPairs n cs).length = cs.countP TklChar.notifies := by
  induction cs generalizing n with
  | nil => rfl
  | cons c cs ih =>
    rw [cccdPairs, length_append, ih, countP_cons, Nat.add_comm]
    split_ifs <;> rfl

/-- What is read from the entries for a table. -/
theorem map_tuplePair {n : ℕ} (hfit : n + (cs.map TklChar.attrs).flatten.length ≤ 65536) :
    ((seenPairs n cs).map tupleOf).map tuplePair = seenPairs n cs := by
  rw [List.map_map]
  refine (map_congr_left fun p hp => ?_).trans (map_id _)
  have h := mem_seenPairs_lt hp
  exact tuplePair_tupleOf (by omega) (by omega)

/-- **A map is right** exactly when the characteristics are plain. -/
theorem mapRight_iff {svc : TklService} {m : AddSrvs} {maps : List CccdMap} {k : CccdMap}
    (hfit : m.startHandle + 1 + (svc.chars.map TklChar.attrs).flatten.length ≤ 65536)
    (hk : k.tuples = (seenPairs (m.startHandle + 1) svc.chars).map tupleOf)
    (hroom : k.room = svc.chars.countP TklChar.notifies)
    (hfind : maps.find? (·.srvId = k.srvId) = some k) :
    MapRight svc m maps k ↔ ∀ c ∈ svc.chars, c.Plain := by
  have hread := map_tuplePair hfit
  rw [← hk] at hread
  constructor
  · intro hright
    refine plain_of_seenPairs (n := m.startHandle + 1) fun p hp => ?_
    rw [← hread] at hp
    exact (mem_cccdPairs ((hright.pairs p).mp hp)).1
  · intro hplain
    have hseen := seenPairs_of_plain (n := m.startHandle + 1) hplain
    rw [hseen] at hread
    have hfound : ∀ handle, findTuple maps k.srvId handle =
        k.tuples.find? fun t => decide ((tuplePair t).1 = handle) := by
      intro handle
      rw [findTuple, hfind]
      rfl
    refine ⟨?_, ?_, fun handle => ?_, fun p hp => ?_⟩
    · have hlength := congrArg List.length hread
      rw [length_map, length_cccdPairs] at hlength
      rw [hlength, hroom]
    · intro p
      rw [← hread]
      rfl
    · rw [isCccdHandle, hfound, List.find?_isSome, ← hread]
      simp only [decide_eq_true_eq, List.mem_map]
      constructor
      · rintro ⟨t, ht, rfl⟩
        exact ⟨(tuplePair t).2, t, ht, rfl⟩
      · rintro ⟨v, t, ht, heq⟩
        exact ⟨t, ht, congrArg Prod.fst heq⟩
    · rw [getCharHandleByCccdHandle, hfound]
      have hpair := mem_cccdPairs hp
      rw [← hread] at hp
      obtain ⟨t, ht, rfl⟩ := List.mem_map.mp hp
      cases hsome : k.tuples.find? fun u => decide ((tuplePair u).1 = (tuplePair t).1) with
      | none => exact absurd (List.find?_eq_none.mp hsome t ht) (by simp)
      | some u =>
        -- the value is the handle before, so there is only one entry for a handle
        have hfst : (tuplePair u).1 = (tuplePair t).1 := by simpa using List.find?_some hsome
        have hmem : tuplePair u ∈ k.tuples.map tuplePair :=
          mem_map_of_mem (mem_of_find?_eq_some hsome)
        rw [hread] at hmem
        have hu := mem_cccdPairs hmem
        show (tuplePair u).2 = (tuplePair t).2
        omega

end Map

/-! ### All services -/

section Services

variable {ks : List SvcCase} {rs : List SvcResult} {start : ℕ}

/-- What is so of a service and what comes of it. -/
structure Placed (k : SvcCase) (r : SvcResult) : Prop where
  isSome : r.msg.isSome ↔ k.svc.type.decl.isSome ∧ k.memTable = true ∧ k.memInfo = true ∧
    k.sent = true
  table : ∀ m ∈ r.msg, TableRight k.svc r m
  fit : ∀ m ∈ r.msg, m.startHandle + m.totalHandles ≤ 65536
  cccdNum : ∀ m ∈ r.msg, m.cccdNum = k.svc.chars.countP TklChar.notifies

/-- **What becomes of all services**: their tables are right, and they have handles of their own. -/
theorem serviceAdd_eq (hfit : HandlesFit ks start) :
    ∃ next rs, tuyaHalGattsServiceAdd ks (start % 65536) = some (next, rs) ∧
      List.Forall₂ Placed ks rs ∧ (∀ m ∈ rs.filterMap SvcResult.msg, start ≤ m.startHandle) ∧
      (rs.filterMap SvcResult.msg).Pairwise fun m m' =>
        m.startHandle + m.totalHandles ≤ m'.startHandle := by
  induction ks generalizing start with
  | nil => exact ⟨_, [], rfl, .nil, nofun, .nil⟩
  | cons k ks ih =>
    obtain ⟨hk, hks⟩ := hfit
    obtain ⟨r, hr, hsome, hmsg⟩ := addOne_eq hk
    obtain ⟨next, rs, hrs, hplaced, hle, hpairwise⟩ := ih hks
    have hnext : start ≤ k.next start := by
      rw [SvcCase.next]
      split_ifs <;> omega
    refine ⟨next, r :: rs, ?_, .cons ⟨hsome, fun m hm => (hmsg m hm).1, fun m hm => ?_,
      fun m hm => (hmsg m hm).2.2.2.2⟩ hplaced, ?_⟩
    · rw [tuyaHalGattsServiceAdd, hr, bind_some, hrs]
      rfl
    · have h := hmsg m hm
      omega
    · cases hm : r.msg with
      | none =>
        rw [filterMap_cons_none hm]
        exact ⟨fun m hm => hnext.trans (hle m hm), hpairwise⟩
      | some m =>
        have h := hmsg m hm
        rw [filterMap_cons_some hm]
        refine ⟨fun m' hm' => ?_, .cons (fun m' hm' => ?_) hpairwise⟩
        · rcases mem_cons.mp hm' with rfl | hm'
          · omega
          · exact hnext.trans (hle m' hm')
        · have h' := hle m' hm'
          omega

/-- What a map is built from. -/
theorem cccdMap_eq_some {k : SvcCase} :
    k.cccdMap r = some map ↔ ∃ m ∈ r.msg, ∃ id ∈ k.srvId, k.memMap = true ∧
      map = ⟨id, m.startHandle, m.cccdNum, cccdTuples m.startHandle m.table⟩ := by
  rw [SvcCase.cccdMap, bind_eq_some_iff]
  refine exists_congr fun m => and_congr_right fun _ => ?_
  cases k.srvId with
  | none => simp [AddSrvs.cccdMap]
  | some id =>
    cases k.memMap with
    | false => simp [AddSrvs.cccdMap]
    | true => simp [AddSrvs.cccdMap, eq_comm]

theorem Placed.mapped_iff {k : SvcCase} (h : Placed k r) :
    k.Mapped ↔ ∃ map, k.cccdMap r = some map := by
  constructor
  · rintro ⟨hdecl, hmemTable, hmemInfo, hsent, hid, hmemMap⟩
    obtain ⟨m, hm⟩ := isSome_iff_exists.mp (h.isSome.mpr ⟨hdecl, hmemTable, hmemInfo, hsent⟩)
    obtain ⟨id, hid⟩ := isSome_iff_exists.mp hid
    exact ⟨_, cccdMap_eq_some.mpr ⟨m, hm, id, hid, hmemMap, rfl⟩⟩
  · rintro ⟨map, hmap⟩
    obtain ⟨m, hm, id, hid, hmemMap, -⟩ := cccdMap_eq_some.mp hmap
    obtain ⟨hdecl, hmemTable, hmemInfo, hsent⟩ := h.isSome.mp (isSome_of_mem hm)
    exact ⟨hdecl, hmemTable, hmemInfo, hsent, isSome_of_mem hid, hmemMap⟩

theorem srvId_of_cccdMap {k : SvcCase}
    (h : k.cccdMap r = some map) : k.srvId = some map.srvId := by
  obtain ⟨m, -, id, hid, -, rfl⟩ := cccdMap_eq_some.mp h
  exact hid

theorem mem_cccdMaps (h : List.Forall₂ Placed ks rs) (hmap : map ∈ cccdMaps ks rs) :
    ∃ k ∈ ks, k.Mapped ∧ k.srvId = some map.srvId := by
  obtain ⟨⟨k, r⟩, hkr, hmap⟩ := mem_filterMap.mp hmap
  have hplaced := (forall₂_iff_zip.mp h).2 hkr
  exact ⟨k, (of_mem_zip hkr).1, hplaced.mapped_iff.mpr ⟨map, hmap⟩, srvId_of_cccdMap hmap⟩

theorem cccdMaps_cons (k : SvcCase) (r : SvcResult) :
    cccdMaps (k :: ks) (r :: rs) = (k.cccdMap r).toList ++ cccdMaps ks rs := by
  rw [cccdMaps, zip_cons_cons, filterMap_cons]
  cases k.cccdMap r <;> rfl

/-- The map of a service is the one that is found. -/
theorem find?_cccdMaps (h : List.Forall₂ Placed ks rs)
    (hids : ks.Pairwise fun k k' => k.Mapped → k'.Mapped → k.srvId ≠ k'.srvId) (hmap : map ∈ cccdMaps ks rs) :
    (cccdMaps ks rs).find? (·.srvId = map.srvId) = some map := by
  induction h with
  | nil => cases hmap
  | @cons k r ks rs hkr hrest ih =>
    obtain ⟨hk, hks⟩ := pairwise_cons.mp hids
    rw [cccdMaps_cons] at hmap ⊢
    cases hone : k.cccdMap r with
    | none =>
      rw [hone] at hmap
      exact ih hks hmap
    | some first =>
      rw [hone] at hmap
      rw [toList_some, singleton_append] at hmap ⊢
      rcases mem_cons.mp hmap with rfl | hmap
      · exact List.find?_cons_of_pos (decide_eq_true rfl)
      · obtain ⟨k', hk', hmapped', hid'⟩ := mem_cccdMaps hrest hmap
        have hne := hk k' hk' (hkr.mapped_iff.mpr ⟨first, hone⟩) hmapped'
        rw [srvId_of_cccdMap hone, hid'] at hne
        rw [List.find?_cons_of_neg (by simpa using hne)]
        exact ih hks hmap

/-- The map of one service. -/
theorem Placed.map_iff {k : SvcCase} {maps : List CccdMap} (h : Placed k r)
    (hfind : ∀ map, k.cccdMap r = some map → maps.find? (·.srvId = map.srvId) = some map) :
    (∀ m ∈ r.msg, ∀ map ∈ m.cccdMap k.srvId k.memMap, MapRight k.svc m maps map) ↔
      (k.Mapped → ∀ c ∈ k.svc.chars, c.Plain) := by
  have hone : ∀ m ∈ r.msg, ∀ map, m.cccdMap k.srvId k.memMap = some map →
      (MapRight k.svc m maps map ↔ ∀ c ∈ k.svc.chars, c.Plain) := by
    intro m hm map hmap
    have hmap' : k.cccdMap r = some map := by
      rw [SvcCase.cccdMap, mem_def.mp hm]
      exact hmap
    obtain ⟨m', hm', id, hid, hmemMap, hmapeq⟩ := cccdMap_eq_some.mp hmap'
    obtain rfl : m' = m := Option.some.inj (hm'.symm.trans hm)
    have htable := h.table m' hm
    obtain ⟨decl, hdecl, hfilled⟩ := htable.filled
    have hfit := h.fit m' hm
    rw [htable.counted.1] at hfit
    refine mapRight_iff (by rw [length_flatten_attrs]; omega) ?_ ?_ (hfind map hmap')
    · rw [hmapeq, hfilled]
      exact cccdTuples_eq hdecl hfit
    · rw [hmapeq]
      exact h.cccdNum m' hm
  constructor
  · intro hright hmapped
    obtain ⟨map, hmap⟩ := h.mapped_iff.mp hmapped
    obtain ⟨m, hm, hmap⟩ := bind_eq_some_iff.mp hmap
    exact (hone m hm map hmap).mp (hright m hm map hmap)
  · intro hplain m hm map hmap
    refine (hone m hm map hmap).mpr (hplain (h.mapped_iff.mpr ⟨map, ?_⟩))
    rw [SvcCase.cccdMap, mem_def.mp hm]
    exact hmap

/-- **The tables and the maps are right** exactly when all characteristics of the services for which
a map is built are plain. -/
theorem gattTable_iff (hstart : start < 65536) (hfit : HandlesFit ks start)
    (hids : ks.Pairwise fun k k' => k.Mapped → k'.Mapped → k.srvId ≠ k'.srvId) :
    ∃ next rs, tuyaHalGattsServiceAdd ks start = some (next, rs) ∧
      (TablesRight ks rs ↔ ∀ k ∈ ks, k.Mapped → ∀ c ∈ k.svc.chars, c.Plain) := by
  obtain ⟨next, rs, hrs, hplaced, -, hpairwise⟩ := serviceAdd_eq hfit
  rw [Nat.mod_eq_of_lt hstart] at hrs
  refine ⟨next, rs, hrs, ?_⟩
  have hzip := forall₂_iff_zip.mp hplaced
  have hone : ∀ k r, (k, r) ∈ ks.zip rs →
      ((∀ m ∈ r.msg, ∀ map ∈ m.cccdMap k.srvId k.memMap, MapRight k.svc m (cccdMaps ks rs) map) ↔
        (k.Mapped → ∀ c ∈ k.svc.chars, c.Plain)) := fun k r hkr =>
    (hzip.2 hkr).map_iff fun map hmap =>
      find?_cccdMaps hplaced hids (mem_filterMap.mpr ⟨(k, r), hkr, hmap⟩)
  constructor
  · intro hright k hk
    obtain ⟨i, hi, rfl⟩ := mem_iff_getElem.mp hk
    have hi' : i < rs.length := hzip.1 ▸ hi
    have hkr : (ks[i], rs[i]) ∈ ks.zip rs :=
      mem_iff_getElem.mpr ⟨i, by rw [length_zip]; omega, getElem_zip⟩
    exact (hone _ _ hkr).mp ((forall₂_iff_zip.mp hright.maps).2 hkr)
  · intro hplain
    refine ⟨hplaced.imp fun k r h => h.table, hpairwise, forall₂_iff_zip.mpr ⟨hzip.1, ?_⟩⟩
    intro k r hkr
    exact (hone k r hkr).mpr (hplain k (of_mem_zip hkr).1)

instance (k : SvcCase) : Decidable k.Mapped :=
  inferInstanceAs (Decidable (_ ∧ _ ∧ _ ∧ _ ∧ _ ∧ _))

instance (c : TklChar) : Decidable c.Plain := inferInstanceAs (Decidable (_ ∧ _))

/-- A primary service for which all goes well, with a number from the stack. -/
def caseOf (chars : List TklChar) (srvId : ℕ) (hlength : chars.length < 256) : SvcCase where
  svc := ⟨⟨.uuid16, 0x50 :: 0xFD :: List.replicate 14 0, rfl⟩, .primary, chars, hlength⟩
  memTable := true
  memInfo := true
  sent := true
  srvId := some srvId
  memMap := true

/-- A characteristic that is notified, whose UUID has 128 bits and begins with two bytes. -/
def notifiedChar (b b' : UInt8) : TklChar where
  charUuid := ⟨.uuid128, b :: b' :: List.replicate 14 7, rfl⟩
  property := 0x92
  permission := 0x02

/-- Two services, the first with two characteristics. -/
def twoCases : List SvcCase :=
  [caseOf [notifiedChar 1 0x29, ⟨⟨.uuid16, 0x03 :: 0x28 :: List.replicate 14 0, rfl⟩, 0x08, 0x04⟩] 4
      (by decide),
    caseOf [notifiedChar 0 0] 5 (by decide)]

theorem gattTable_iff_twoCases :
    ∃ next rs, tuyaHalGattsServiceAdd twoCases 0x100 = some (next, rs) ∧ TablesRight twoCases rs := by
  obtain ⟨next, rs, hrs, hiff⟩ := @gattTable_iff twoCases 0x100 (by decide)
    ⟨fun _ _ => by decide, fun _ _ => by decide, trivial⟩ (by decide)
  exact ⟨next, rs, hrs, hiff.mpr (by decide)⟩

/-- A UUID that begins as that of a client configuration makes two entries of one, for which there is
no room; one that begins as that of a declaration makes the client configuration its own value. -/
theorem not_gattTable :
    ¬(∀ (ks : List SvcCase) (start : ℕ), start < 65536 → HandlesFit ks start →
      (ks.Pairwise fun k k' => k.Mapped → k'.Mapped → k.srvId ≠ k'.srvId) →
      ∃ next rs, tuyaHalGattsServiceAdd ks start = some (next, rs) ∧ TablesRight ks rs) ∧
    (∃ next rs, tuyaHalGattsServiceAdd [caseOf [notifiedChar 0x02 0x29] 4 (by decide)] 0x100 =
        some (next, rs) ∧
      (cccdMaps [caseOf [notifiedChar 0x02 0x29] 4 (by decide)] rs).map
        (fun k => (k.room, k.tuples.map tuplePair)) =
          [(1, [(0x102, 0x102), (0x103, 0x102)])]) ∧
    ∃ next rs, tuyaHalGattsServiceAdd [caseOf [notifiedChar 0x03 0x28] 4 (by decide)] 0x100 =
        some (next, rs) ∧
      (cccdMaps [caseOf [notifiedChar 0x03 0x28] 4 (by decide)] rs).map
        (fun k => (k.room, k.tuples.map tuplePair)) = [(1, [(0x103, 0x103)])] := by
  refine ⟨fun hall => ?_, ⟨_, _, rfl, by decide +kernel⟩, ⟨_, _, rfl, by decide +kernel⟩⟩
  obtain ⟨next, rs, hrs, hright⟩ := hall [caseOf [notifiedChar 0x02 0x29] 4 (by decide)] 0x100
    (by decide) ⟨fun _ _ => by decide, trivial⟩ (pairwise_singleton _ _)
  obtain ⟨next', rs', hrs', hone⟩ : ∃ next rs,
      tuyaHalGattsServiceAdd [caseOf [notifiedChar 0x02 0x29] 4 (by decide)] 0x100 =
        some (next, rs) ∧
      ∀ r ∈ rs, ∃ m ∈ r.msg, ∃ map ∈ m.cccdMap (some 4) true, map.room < map.tuples.length :=
    ⟨_, _, rfl, by decide +kernel⟩
  rw [hrs, Option.some.injEq, Prod.mk.injEq] at hrs'
  rw [← hrs'.2] at hone
  cases hright.maps with
  | cons hmaps _ =>
    obtain ⟨m, hm, map, hmap, hlt⟩ := hone _ mem_cons_self
    exact absurd (hmaps m hm map hmap).room (Nat.not_le.mpr hlt)

end Services

end Ble

end Gd32
