import Gd32Firmware.Lib.Blocks
import Gd32Firmware.Lib.Machine
import Gd32Firmware.Lib.Table
import Mathlib.Algebra.Ring.Nat
import Mathlib.Logic.Function.Basic

/-!
# The values of the GATT server

`tuya_ble_hal.c` keeps the values of the characteristics itself, one copy for each connection: when
a link comes up on which this side is the server, a node is allocated for each characteristic of
each service; setting a value or a write of the other side changes a node, or replaces it by a
larger one; when the link goes down the nodes are freed.

`GattSpec` is what this is for: for each connection a value for each characteristic.
`store_calm` says in which runs the nodes are that, `not_store_twoServices` that
they are not always.
-/

namespace Gd32.Ble

open List Function Option

variable {f : AttrNode → AttrNode} {l : List AttrInfo} {cs : List CharParams} {data : List UInt8}
  {g : List UInt8 → List UInt8} {v : Option (ℕ → Option (List UInt8))}

/-! ### Services -/

/-- The first two bytes of `BLE_GATT_DECL_PRIMARY_SERVICE`. -/
def declPrimaryService : ℕ := 0x2800

/-- The first two bytes of `BLE_GATT_DECL_SECONDARY_SERVICE`. -/
def declSecondaryService : ℕ := 0x2801

/-- The first two bytes of `BLE_GATT_DECL_CHARACTERISTIC`. -/
def declCharacteristic : ℕ := 0x2803

/-- The first two bytes of `BLE_GATT_DESC_CHAR_EXT_PROPERTIES`. -/
def descCharExtProperties : ℕ := 0x2900

/-- The first two bytes of `BLE_GATT_DESC_CLIENT_CHAR_CFG`. -/
def descClientCharCfg : ℕ := 0x2902

/-- `TKL_BLE_CHAR_PARAMS_T`. -/
structure CharParams where
  /-- The first two bytes of `char_uuid`. -/
  uuid16 : ℕ
  /-- `property` has `NOTIFY` or `INDICATE`. -/
  notifies : Bool
  /-- `property` has `EXT_PROP`. -/
  extProp : Bool

/-- `TKL_BLE_SERVICE_TYPE_E`, or something else. -/
inductive ServiceType where
  | primary
  | secondary
  | other
  deriving DecidableEq

/-- `TKL_BLE_SERVICE_PARAMS_T`; `char_num` is a `uint8_t`. -/
structure ServiceParams where
  type : ServiceType
  /-- `p_char`. -/
  chars : List CharParams
  /-- `char_num` fits. -/
  charNum_lt : chars.length < 256

/-- The attributes of a characteristic, by the first two bytes of their UUIDs. -/
def CharParams.table (c : CharParams) : List ℕ :=
  [declCharacteristic, c.uuid16] ++ (if c.notifies then [descClientCharCfg] else []) ++
    if c.extProp then [descCharExtProperties] else []

def calcCharHandleNum (chars : List CharParams) : ℕ :=
  (chars.map fun c => 2 + (if c.notifies then 1 else 0) + if c.extProp then 1 else 0).sum

/-- `value_len` of every characteristic. -/
def charValueLen : ℕ := 512

/-- `attr_handle_tuple`: the handles of the characteristics of a service at `svcHandle`, the first of
which starts at `totalHandle`, with the lengths of their values. -/
def attrHandleTuple (svcHandle : ℕ) : ℕ → List CharParams → List (ℕ × ℕ)
  | _, [] => []
  | totalHandle, c :: cs =>
    ((svcHandle + (totalHandle + 1)) % 65536, charValueLen) ::
      attrHandleTuple svcHandle (totalHandle + c.table.length) cs

/-- `p_srv_table` of a service. -/
def srvTable (decl : ℕ) (chars : List CharParams) : List ℕ :=
  decl :: (chars.map CharParams.table).flatten

/-- `ble_attr_info_t`. -/
structure AttrInfo where
  srvId : ℕ
  svcHandle : ℕ
  /-- `attr_handle_tuple`. -/
  attrs : List (ℕ × ℕ)

/-- `ble_cccd_info_t`. -/
structure CccdInfo where
  srvId : ℕ
  /-- The handles of the descriptors in `cccd_handle_tuple`. -/
  cccds : List ℕ

/-- The descriptors that the handler of the request finds in the table of a service. -/
def cccdHandles (svcHandle : ℕ) (table : List ℕ) : List ℕ :=
  (table.zipIdx.filter fun x => x.1 ≠ declCharacteristic ∧ x.1 = descClientCharCfg).map
    fun x => (svcHandle + x.2) % 65536

/-! ### Nodes -/

/-- `tkl_conn_gatts_attr_node_t`. -/
structure AttrNode where
  id : ℕ
  srvId : ℕ
  svcHandle : ℕ
  charHandle : ℕ
  maxValueLen : ℕ
  currValueLen : ℕ
  value : List UInt8

/-- What the node says the value is. -/
def AttrNode.contents (x : AttrNode) : List UInt8 := x.value.take x.currValueLen

/-- `TKL_BLE_ROLE_CLIENT` and `TKL_BLE_ROLE_SERVER`. -/
inductive BleRole where
  | client
  | server
  deriving DecidableEq

/-- `tkl_conn_dev_node_t`. -/
structure ConnDev where
  connHandle : ℕ
  conidx : ℕ
  role : BleRole
  /-- `gatts_attr_list`. -/
  attrs : List AttrNode

/-- What `adp_env` holds of this. -/
structure AdpEnv where
  srvAttrList : List AttrInfo
  srvCccdList : List CccdInfo
  connDevList : List ConnDev
  srvAddHandle : ℕ
  /-- The number of nodes allocated so far. -/
  allocs : ℕ
  freed : List ℕ

/-- The adapter when it has been set up. -/
def adpEnvInit : AdpEnv := ⟨[], [], [], 0x100, 0, []⟩

/-- `tkl_ble_find_dev_by_conn_handle`. -/
def AdpEnv.findDev (e : AdpEnv) (connHandle : ℕ) : Option ConnDev :=
  e.connDevList.find? (·.connHandle = connHandle)

/-- `tkl_ble_find_dev_by_conidx`. -/
def AdpEnv.findConidx (e : AdpEnv) (conidx : ℕ) : Option ConnDev :=
  e.connDevList.find? (·.conidx = conidx)

/-- A change of the device with a connection handle. -/
def AdpEnv.updateDev (e : AdpEnv) (connHandle : ℕ) (f : ConnDev → ConnDev) : AdpEnv :=
  { e with connDevList := Table.update (fun d => d.connHandle = connHandle) f e.connDevList }

/-- A change of the node of a characteristic. -/
def ConnDev.updateAttr (d : ConnDev) (charHandle : ℕ) (f : AttrNode → AttrNode) : ConnDev :=
  { d with attrs := Table.update (fun x => x.charHandle = charHandle) f d.attrs }

/-- The node of a characteristic is deleted and another one put at the end. -/
def ConnDev.replaceAttr (d : ConnDev) (charHandle : ℕ) (new : AttrNode) : ConnDev :=
  { d with attrs := d.attrs.eraseP (·.charHandle = charHandle) ++ [new] }

/-- `tkl_ble_find_gatts_attr_by_handle`. -/
def AdpEnv.findAttr (e : AdpEnv) (connHandle charHandle : ℕ) : Option AttrNode :=
  (e.findDev connHandle).bind fun d => d.attrs.find? (·.charHandle = charHandle)

/-- The attributes for which `tkl_ble_alloc_gatts_attr_by_dev` allocates nodes: `i` goes on from one
service to the next. -/
def attrsFrom : ℕ → List AttrInfo → List (AttrInfo × ℕ × ℕ)
  | _, [] => []
  | i, a :: l => (a.attrs.drop i).map (fun x => (a, x)) ++ attrsFrom (max i a.attrs.length) l

/-- A new node. -/
def newNode (x : (AttrInfo × ℕ × ℕ) × ℕ) : AttrNode where
  id := x.2
  srvId := x.1.1.srvId
  svcHandle := x.1.1.svcHandle
  charHandle := x.1.2.1
  maxValueLen := x.1.2.2
  currValueLen := x.1.2.2
  value := List.replicate x.1.2.2 0

/-- `tkl_ble_alloc_gatts_attr_by_dev`. -/
def AdpEnv.allocAttrs (e : AdpEnv) (connHandle : ℕ) : AdpEnv :=
  let new := ((attrsFrom 0 e.srvAttrList).zipIdx e.allocs).map newNode
  { e.updateDev connHandle (fun d => { d with attrs := d.attrs ++ new }) with
    allocs := e.allocs + new.length }

/-! ### Events -/

/-- `tuya_hal_gatts_service_add` with one service, and its request when it is handled: `sent` is
that the request gets into the queue, `result` is the number that the stack gives the service. -/
def AdpEnv.addService (e : AdpEnv) (svc : ServiceParams) (sent : Bool) (result : Option ℕ) :
    AdpEnv :=
  let start := e.srvAddHandle
  let next := (start + (1 + calcCharHandleNum svc.chars)) % 65536
  let decl :=
    match svc.type with
    | .primary => some declPrimaryService
    | .secondary => some declSecondaryService
    | .other => none
  match decl with
  | none => { e with srvAddHandle := next }
  | some decl =>
    let table := srvTable decl svc.chars
    if sent then
      match result with
      | none => { e with srvAddHandle := next }
      | some srvId =>
        { e with
          srvAddHandle := next
          srvCccdList := e.srvCccdList ++ [CccdInfo.mk srvId (cccdHandles start table)]
          srvAttrList :=
            e.srvAttrList ++ [AttrInfo.mk srvId start (attrHandleTuple start 1 svc.chars)] }
    else { e with srvAddHandle := (next + 65536 - table.length) % 65536 }

/-- `ble_tuya_rw_cb` when the stack could not add a service. -/
def AdpEnv.svcAddRsp (e : AdpEnv) (svcId : ℕ) (ok : Bool) : AdpEnv :=
  if ok then e
  else
    { e with
      srvCccdList := e.srvCccdList.eraseP (·.srvId = svcId)
      srvAttrList := e.srvAttrList.eraseP (·.srvId = svcId) }

/-- `tkl_ble_app_conn_evt_handler` when a link is up. -/
def AdpEnv.connected (e : AdpEnv) (connHdl conidx : ℕ) (role : BleRole) : AdpEnv :=
  let e :=
    match e.findDev connHdl with
    | some _ => e
    | none => { e with connDevList := e.connDevList ++ [ConnDev.mk connHdl 0 .client []] }
  let e := e.updateDev connHdl fun d => { d with conidx := conidx, role := role }
  if role = .server then e.allocAttrs connHdl else e

/-- `tkl_ble_app_conn_evt_handler` when a link is down, with `tkl_ble_remove_dev_by_conn_handle`. -/
def AdpEnv.disconnected (e : AdpEnv) (connHdl : ℕ) : AdpEnv :=
  match e.findDev connHdl with
  | none => e
  | some d =>
    { e with
      connDevList := e.connDevList.eraseP (·.connHandle = connHdl)
      freed := e.freed ++ d.attrs.map AttrNode.id }

/-- The node with a value that fits. -/
def AttrNode.setValue (data : List UInt8) (x : AttrNode) : AttrNode :=
  { x with currValueLen := data.length, value := data ++ x.value.drop data.length }

/-- `GATTS_SUBTYPE_SET_VAL`: the request of `tuya_hal_gatts_value_set` when it is handled. -/
def AdpEnv.valueSet (e : AdpEnv) (connHandle charHandle : ℕ) (data : List UInt8) : AdpEnv :=
  match e.findAttr connHandle charHandle with
  | none => e
  | some x =>
    if x.maxValueLen < data.length then
      let new : AttrNode :=
        { x with
          id := e.allocs
          maxValueLen := data.length
          currValueLen := data.length
          value := data }
      { e.updateDev connHandle (fun d => d.replaceAttr charHandle new) with
        allocs := e.allocs + 1
        freed := e.freed ++ [x.id] }
    else e.updateDev connHandle fun d => d.updateAttr charHandle (AttrNode.setValue data)

/-- The node after a write. -/
def AttrNode.write (offset : ℕ) (data : List UInt8) (x : AttrNode) : AttrNode :=
  { x with
    currValueLen := offset + data.length
    value := x.value.take offset ++ data ++ x.value.drop (offset + data.length) }

def AdpEnv.isCccd (e : AdpEnv) (svcId handle : ℕ) : Bool :=
  match e.srvCccdList.find? (·.srvId = svcId) with
  | none => false
  | some info => handle ∈ info.cccds

/-- `ble_tuya_rw_cb` with a write of the other side to the attribute with a handle. -/
def AdpEnv.peerWrite (e : AdpEnv) (conidx svcId handle offset : ℕ) (data : List UInt8) : AdpEnv :=
  match e.findConidx conidx with
  | none => e
  | some d =>
    if e.isCccd svcId handle then e
    else
      match e.findAttr d.connHandle handle with
      | none => e
      | some x =>
        if x.maxValueLen < data.length + offset then e
        else
          e.updateDev d.connHandle fun d => d.updateAttr handle (AttrNode.write offset data)

/-! ### What it is for -/

/-- The abstract store: for each connection, a value for each characteristic there is. -/
abbrev GattSpec : Type := ℕ → Option (ℕ → Option (List UInt8))

/-- A link is up. As the server there is a value for each characteristic in a list. -/
def GattSpec.connected (g : GattSpec) (connHdl : ℕ) (role : BleRole) (chars : List (ℕ × ℕ)) :
    GattSpec :=
  update g connHdl <|
    match role with
    | .server => some fun h => (chars.lookup h).map fun len => List.replicate len 0
    | .client => some ((g connHdl).getD fun _ => none)

/-- A link is down. -/
def GattSpec.disconnected (g : GattSpec) (connHdl : ℕ) : GattSpec := update g connHdl none

/-- The value of a characteristic is changed on one connection. -/
def GattSpec.modify (g : GattSpec) (connHandle charHandle : ℕ)
    (f : List UInt8 → List UInt8) : GattSpec :=
  update g connHandle
    ((g connHandle).map fun v => update v charHandle ((v charHandle).map f))

/-! ### Steps -/

/-- What can happen. -/
inductive GattEvent where
  | addService (svc : ServiceParams) (sent : Bool) (result : Option ℕ)
  /-- The stack answers that a service is there, or is not. -/
  | svcAddRsp (svcId : ℕ) (ok : Bool)
  | connected (connHdl conidx : ℕ) (role : BleRole)
  | disconnected (connHdl : ℕ)
  | valueSet (connHandle charHandle : ℕ) (data : List UInt8)
  | peerWrite (conidx svcId handle offset : ℕ) (data : List UInt8)

/-- The adapter and what it should hold. -/
structure GattRun where
  env : AdpEnv
  store : GattSpec

/-- The characteristics of the services that have been added. -/
def AdpEnv.chars (e : AdpEnv) : List (ℕ × ℕ) := (e.srvAttrList.map AttrInfo.attrs).flatten

/-- A write is accepted when there is a node in which it fits. -/
def AdpEnv.accepts (e : AdpEnv) (connHandle handle offset : ℕ) (data : List UInt8) : Bool :=
  match e.findAttr connHandle handle with
  | none => false
  | some x => data.length + offset ≤ x.maxValueLen

/-- What happens to the adapter. -/
def GattEvent.apply (i : GattEvent) (e : AdpEnv) : AdpEnv :=
  match i with
  | .addService svc sent result => e.addService svc sent result
  | .svcAddRsp svcId ok => e.svcAddRsp svcId ok
  | .connected connHdl conidx role => e.connected connHdl conidx role
  | .disconnected connHdl => e.disconnected connHdl
  | .valueSet connHandle charHandle data => e.valueSet connHandle charHandle data
  | .peerWrite conidx svcId handle offset data => e.peerWrite conidx svcId handle offset data

/-- What should happen to the store. -/
def GattEvent.spec (i : GattEvent) (e : AdpEnv) (g : GattSpec) : GattSpec :=
  match i with
  | .addService _ _ _ => g
  | .svcAddRsp _ _ => g
  | .connected connHdl _ role => g.connected connHdl role e.chars
  | .disconnected connHdl => g.disconnected connHdl
  | .valueSet connHandle charHandle data => g.modify connHandle charHandle fun _ => data
  | .peerWrite conidx _ handle offset data =>
    match e.findConidx conidx with
    | none => g
    | some d =>
      if e.accepts d.connHandle handle offset data then
        g.modify d.connHandle handle fun v => v.take offset ++ data
      else g

/-- The stack gives no two connections the same index. -/
def GattEvent.Possible (i : GattEvent) (e : AdpEnv) : Prop :=
  match i with
  | .connected connHdl conidx _ =>
    ∀ d ∈ e.connDevList, d.conidx = conidx → d.connHandle = connHdl
  | _ => True

instance (i : GattEvent) (e : AdpEnv) : Decidable (i.Possible e) :=
  match i with
  | .connected connHdl conidx _ =>
    inferInstanceAs (Decidable (∀ d ∈ e.connDevList, d.conidx = conidx → d.connHandle = connHdl))
  | .addService _ _ _ => .isTrue trivial
  | .svcAddRsp _ _ => .isTrue trivial
  | .disconnected _ => .isTrue trivial
  | .valueSet _ _ _ => .isTrue trivial
  | .peerWrite _ _ _ _ _ => .isTrue trivial

/-- One event. -/
def gattStep (i : GattEvent) (s : GattRun) : Option GattRun :=
  if i.Possible s.env then some ⟨i.apply s.env, i.spec s.env s.store⟩ else none

/-- The adapter when it has been set up, and no connection. -/
def gattInit : GattRun := ⟨adpEnvInit, fun _ => none⟩

/-! ### What is to be so -/

/-- The values of the nodes of a characteristic on a connection. -/
def ConnDev.view (d : ConnDev) (h : ℕ) : List (List UInt8) :=
  (d.attrs.filter (·.charHandle = h)).map AttrNode.contents

/-- The device is the only one with its connection handle, and it has the values: one node for each
characteristic that has a value, and no other. -/
def AdpEnv.Holds (e : AdpEnv) (c : ℕ) : Option (ℕ → Option (List UInt8)) → Prop
  | none => e.connDevList.filter (·.connHandle = c) = []
  | some v => ∃ d, e.connDevList.filter (·.connHandle = c) = [d] ∧ ∀ h, d.view h = (v h).toList

/-- The nodes that are in use. -/
def AdpEnv.live (e : AdpEnv) : List ℕ :=
  (e.connDevList.map fun d => d.attrs.map AttrNode.id).flatten

/-- **The nodes are the store.** On every connection there is one node for each characteristic that
has a value, with this value; and a node that has been allocated is in use or has been freed once. -/
structure StoreRight (s : GattRun) : Prop where
  holds : ∀ c, s.env.Holds c (s.store c)
  blocks : Blocks.Accounted s.env.allocs s.env.live s.env.freed

/-- A link that comes up as the server's has no nodes yet, and one service at most has
characteristics; a write that is accepted does not start behind the end of the value, and not at what
is taken for a descriptor. -/
def GattEvent.Calm (s : GattRun) : GattEvent → Prop
  | .connected connHdl _ .server =>
    (∀ d ∈ s.env.findDev connHdl, d.attrs.isEmpty) ∧
      (s.env.srvAttrList.filter (·.attrs ≠ [])).length ≤ 1
  | .peerWrite conidx svcId handle offset data =>
    ∀ d ∈ s.env.findConidx conidx, s.env.accepts d.connHandle handle offset data = true →
      s.env.isCccd svcId handle = false ∧
        ∀ x ∈ s.env.findAttr d.connHandle handle, offset ≤ x.currValueLen
  | _ => True

instance (s : GattRun) : (i : GattEvent) → Decidable (i.Calm s)
  | .connected connHdl _ .server =>
    inferInstanceAs (Decidable ((∀ d ∈ s.env.findDev connHdl, d.attrs.isEmpty) ∧
        (s.env.srvAttrList.filter (·.attrs ≠ [])).length ≤ 1))
  | .connected _ _ .client => .isTrue trivial
  | .peerWrite conidx svcId handle offset data =>
    inferInstanceAs (Decidable (∀ d ∈ s.env.findConidx conidx,
      s.env.accepts d.connHandle handle offset data = true →
        s.env.isCccd svcId handle = false ∧
          ∀ x ∈ s.env.findAttr d.connHandle handle, offset ≤ x.currValueLen))
  | .addService _ _ _ => .isTrue trivial
  | .svcAddRsp _ _ => .isTrue trivial
  | .disconnected _ => .isTrue trivial
  | .valueSet _ _ _ => .isTrue trivial

/-! ### The handles of a service -/

theorem CharParams.length_table (c : CharParams) : 2 ≤ c.table.length ∧ c.table.length ≤ 4 := by
  unfold CharParams.table
  cases c.notifies <;> cases c.extProp <;> simp

/-- The handles of the characteristics lie behind the start, each in the first four times as many as
there are characteristics. -/
theorem attrHandleTuple_range {svcHandle t : ℕ} {x : ℕ × ℕ}
    (hx : x ∈ attrHandleTuple svcHandle t cs) :
    ∃ p, t < p ∧ p ≤ t + 4 * cs.length ∧ x.1 = (svcHandle + p) % 65536 := by
  induction cs generalizing t with
  | nil => exact absurd hx not_mem_nil
  | cons c cs ih =>
    have hlen := c.length_table
    rw [attrHandleTuple, mem_cons] at hx
    rcases hx with rfl | hx
    · exact ⟨t + 1, by omega, by rw [length_cons]; omega, rfl⟩
    · obtain ⟨p, hp, hple, hxp⟩ := ih hx
      exact ⟨p, by omega, by rw [length_cons]; omega, hxp⟩

/-- No two characteristics of a service have the same handle. -/
theorem attrHandleTuple_nodup {svcHandle t : ℕ} (hcs : cs.length < 256) :
    ((attrHandleTuple svcHandle t cs).map Prod.fst).Nodup := by
  induction cs generalizing t with
  | nil => exact nodup_nil
  | cons c cs ih =>
    have hlen := c.length_table
    rw [length_cons] at hcs
    rw [attrHandleTuple, map_cons, nodup_cons]
    refine ⟨fun hmem => ?_, ih (by omega)⟩
    obtain ⟨x, hx, heq⟩ := mem_map.mp hmem
    obtain ⟨p, hp, hple, hxp⟩ := attrHandleTuple_range hx
    omega

/-- A list searched by its first components: what is found is the only entry with this key. -/
theorem lookup_toList {κ β γ : Type} [DecidableEq κ] {l : List (κ × β)}
    (h : (l.map Prod.fst).Nodup) (k : κ) (f : β → γ) :
    (l.filter fun x => x.1 = k).map (fun x => f x.2) = ((l.lookup k).map f).toList := by
  induction l with
  | nil => rfl
  | cons x l ih =>
    obtain ⟨a, b⟩ := x
    rw [map_cons, nodup_cons] at h
    by_cases ha : a = k
    · subst ha
      have hnil : l.filter (fun x => decide (x.1 = a)) = [] := by
        rw [filter_eq_nil_iff]
        intro y hy hya
        have hmem : y.1 ∈ l.map Prod.fst := mem_map_of_mem hy
        rw [of_decide_eq_true hya] at hmem
        exact h.1 hmem
      rw [filter_cons_of_pos (by simp), hnil, lookup_cons_self]
      rfl
    · rw [filter_cons_of_neg (by simpa using ha), ih h.2, lookup_cons,
        beq_eq_false_iff_ne.mpr fun hka => ha hka.symm]

/-- When one service at most has characteristics, there are nodes for all. -/
theorem attrsFrom_of_le_one {i : ℕ}
    (h : (l.filter (·.attrs ≠ [])).length ≤ 1) (hi : i = 0 ∨ l.filter (·.attrs ≠ []) = []) :
    (attrsFrom i l).map Prod.snd = (l.map AttrInfo.attrs).flatten := by
  induction l generalizing i with
  | nil => rfl
  | cons a l ih =>
    rw [attrsFrom, map_append, List.map_map, map_cons, flatten_cons]
    by_cases ha : a.attrs = []
    · rw [filter_cons_of_neg (by simpa using ha)] at h hi
      rw [ha, drop_nil, length_nil, Nat.max_zero]
      exact ih h hi
    · rw [filter_cons_of_pos (by simpa using ha), length_cons] at h
      rw [filter_cons_of_pos (by simpa using ha)] at hi
      have hrest : l.filter (fun x => decide (x.attrs ≠ [])) = [] :=
        eq_nil_of_length_eq_zero (by omega)
      obtain rfl : i = 0 := hi.resolve_right (cons_ne_nil _ _)
      rw [drop_zero, ih (by omega) (Or.inr hrest)]
      congr 1
      exact map_id _

/-! ### Changes of nodes and devices -/

section Changes

variable {e : AdpEnv} {c h : ℕ} {d : ConnDev} {x : AttrNode}

theorem findDev_of_filter (hd : e.connDevList.filter (·.connHandle = c) = [d]) :
    e.findDev c = some d :=
  Table.find?_of_filter hd

theorem findDev_of_filter_nil (hd : e.connDevList.filter (·.connHandle = c) = []) :
    e.findDev c = none :=
  Table.find?_of_filter_nil hd

/-- The node that is found is the only one, and its contents the value. -/
theorem findAttr_of_view {v : List UInt8}
    (hd : e.connDevList.filter (·.connHandle = c) = [d]) (hv : d.view h = [v]) :
    ∃ x, d.attrs.filter (·.charHandle = h) = [x] ∧ x.contents = v ∧ e.findAttr c h = some x := by
  rw [ConnDev.view, map_eq_singleton_iff] at hv
  obtain ⟨x, hx, hxv⟩ := hv
  refine ⟨x, hx, hxv, ?_⟩
  rw [AdpEnv.findAttr, findDev_of_filter hd, bind_some, Table.find?_of_filter hx]

theorem findAttr_of_view_nil (hd : e.connDevList.filter (·.connHandle = c) = [d])
    (hv : d.view h = []) : e.findAttr c h = none := by
  rw [ConnDev.view, map_eq_nil_iff] at hv
  rw [AdpEnv.findAttr, findDev_of_filter hd, bind_some, Table.find?_of_filter_nil hv]

/-- A change of one node leaves the other characteristics alone. -/
theorem view_updateAttr_of_ne {h' : ℕ}
    (hf : ∀ x, (f x).charHandle = x.charHandle) (hne : h' ≠ h) :
    (d.updateAttr h f).view h' = d.view h' := by
  rw [ConnDev.view, ConnDev.view, ConnDev.updateAttr, Table.filter_update_of_not]
  · intro x hx
    rw [of_decide_eq_true hx]
    exact decide_eq_false (Ne.symm hne)
  · intro x hx
    rw [hf x, of_decide_eq_true hx]
    exact decide_eq_false (Ne.symm hne)

theorem view_updateAttr_self
    (hf : ∀ x, (f x).charHandle = x.charHandle) (hx : d.attrs.filter (·.charHandle = h) = [x]) :
    (d.updateAttr h f).view h = [(f x).contents] := by
  rw [ConnDev.view, ConnDev.updateAttr, Table.filter_update_self (fun y hy => ?_) hx]
  · rfl
  · rw [hf y]
    exact hy

/-- A change of one device leaves the other connections alone. -/
theorem holds_updateDev_of_ne {f : ConnDev → ConnDev} {c' : ℕ}
    (hf : ∀ d, (f d).connHandle = d.connHandle) (hne : c' ≠ c)
    (hv : e.Holds c' v) :
    (e.updateDev c f).Holds c' v := by
  have hsame : (e.updateDev c f).connDevList.filter (·.connHandle = c') =
      e.connDevList.filter (·.connHandle = c') := by
    refine Table.filter_update_of_not (fun d hd => ?_) fun d hd => ?_
    · rw [of_decide_eq_true hd]
      exact decide_eq_false (Ne.symm hne)
    · rw [hf d, of_decide_eq_true hd]
      exact decide_eq_false (Ne.symm hne)
  cases v with
  | none => exact hsame.trans hv
  | some v =>
    obtain ⟨d, hd, hview⟩ := hv
    exact ⟨d, hsame.trans hd, hview⟩

theorem filter_updateDev_self {f : ConnDev → ConnDev}
    (hf : ∀ d, (f d).connHandle = d.connHandle)
    (hd : e.connDevList.filter (·.connHandle = c) = [d]) :
    (e.updateDev c f).connDevList.filter (·.connHandle = c) = [f d] :=
  Table.filter_update_self (fun d' hd' => by rw [hf d']; exact hd') hd

/-- The nodes in use change as those of the device do. -/
theorem count_live_updateDev {f : ConnDev → ConnDev} (id : ℕ)
    (hd : e.connDevList.filter (·.connHandle = c) = [d]) :
    (e.updateDev c f).live.count id + (d.attrs.map AttrNode.id).count id =
      e.live.count id + ((f d).attrs.map AttrNode.id).count id := by
  rcases Table.update_cases (fun d => decide (d.connHandle = c)) f e.connDevList with
    ⟨hnil, -⟩ | ⟨d', before, after, hd', hl, hl'⟩
  · rw [hnil] at hd
    cases hd
  · have hmem : d' ∈ e.connDevList.filter (·.connHandle = c) :=
      mem_filter.mpr ⟨by rw [hl]; exact mem_append_right _ mem_cons_self, hd'⟩
    rw [hd, mem_singleton] at hmem
    subst hmem
    rw [AdpEnv.live, AdpEnv.live, AdpEnv.updateDev]
    rw [hl', hl]
    simp only [map_append, map_cons, flatten_append, flatten_cons,
      count_append]
    omega

/-- A change that keeps the blocks keeps the nodes in use. -/
theorem live_updateDev {f : ConnDev → ConnDev}
    (hf : ∀ d, (f d).attrs.map AttrNode.id = d.attrs.map AttrNode.id) :
    (e.updateDev c f).live = e.live := by
  rcases Table.update_cases (fun d => decide (d.connHandle = c)) f e.connDevList with
    ⟨-, hl⟩ | ⟨d', before, after, -, hl, hl'⟩
  · rw [AdpEnv.live, AdpEnv.updateDev, hl]
    rfl
  · rw [AdpEnv.live, AdpEnv.live, AdpEnv.updateDev]
    rw [hl', hl, map_append, map_append, map_cons, map_cons, hf]

/-- What a connection holds is a matter of the list of devices. -/
theorem AdpEnv.Holds.congr {e' : AdpEnv}
    (h : e'.connDevList = e.connDevList) (hv : e.Holds c v) : e'.Holds c v := by
  cases v with
  | none =>
    rw [AdpEnv.Holds, h]
    exact hv
  | some v =>
    rw [AdpEnv.Holds, h]
    exact hv

theorem map_id_updateAttr (hf : ∀ x, (f x).id = x.id) :
    (d.updateAttr h f).attrs.map AttrNode.id = d.attrs.map AttrNode.id := by
  rw [ConnDev.updateAttr]
  rcases Table.update_cases (fun x => decide (x.charHandle = h)) f d.attrs with
    ⟨-, hl⟩ | ⟨x', before, after, -, hl, hl'⟩
  · rw [hl]
  · rw [hl', hl, map_append, map_append, map_cons, map_cons, hf]

end Changes

/-! ### Every event keeps the store -/

/-- What is so between the events. -/
structure GattRun.Inv (s : GattRun) : Prop extends StoreRight s where
  attrs_nodup : ∀ a ∈ s.env.srvAttrList, (a.attrs.map Prod.fst).Nodup
  nodes : ∀ d ∈ s.env.connDevList, ∀ x ∈ d.attrs,
    x.value.length = x.maxValueLen ∧ x.currValueLen ≤ x.maxValueLen

theorem gattInit_inv : gattInit.Inv where
  holds _ := rfl
  blocks := Blocks.accounted_zero
  attrs_nodup _ ha := absurd ha not_mem_nil
  nodes _ hd := absurd hd not_mem_nil

namespace GattRun.Inv

variable {s : GattRun}

/-- Services do not change what connections hold. -/
theorem services (hs : s.Inv) {attrs : List AttrInfo} {cccds : List CccdInfo} {next : ℕ}
    (ha : ∀ a ∈ attrs, (a.attrs.map Prod.fst).Nodup) :
    GattRun.Inv
      ⟨{ s.env with srvAttrList := attrs, srvCccdList := cccds, srvAddHandle := next }, s.store⟩ where
  holds c := by
    have h := hs.holds c
    cases hc : s.store c with
    | none => rw [hc] at h; exact h
    | some v => rw [hc] at h; exact h
  blocks := hs.blocks
  attrs_nodup := ha
  nodes := hs.nodes

theorem addService (hs : s.Inv) (svc : ServiceParams) (sent : Bool) (result : Option ℕ) :
    GattRun.Inv ⟨s.env.addService svc sent result, s.store⟩ := by
  have hkeep := hs.attrs_nodup
  unfold AdpEnv.addService
  cases svc.type with
  | other => exact hs.services hkeep
  | primary | secondary =>
    cases sent with
    | false => exact hs.services hkeep
    | true =>
      cases result with
      | none => exact hs.services hkeep
      | some srvId =>
        refine hs.services fun a ha => ?_
        rcases mem_append.mp ha with ha | ha
        · exact hkeep a ha
        · rw [mem_singleton] at ha
          exact ha ▸ attrHandleTuple_nodup svc.charNum_lt

theorem svcAddRsp (hs : s.Inv) (svcId : ℕ) (ok : Bool) :
    GattRun.Inv ⟨s.env.svcAddRsp svcId ok, s.store⟩ := by
  unfold AdpEnv.svcAddRsp
  split
  · exact hs
  · exact hs.services fun a ha => hs.attrs_nodup a (mem_of_mem_eraseP ha)

/-- The device with a connection handle, if the store has the connection. -/
theorem device (hs : s.Inv) {c : ℕ} {d : ConnDev} (hd : s.env.findDev c = some d) :
    ∃ v, s.store c = some v ∧ s.env.connDevList.filter (·.connHandle = c) = [d] ∧
      ∀ h, d.view h = (v h).toList := by
  have h := hs.holds c
  cases hc : s.store c with
  | none =>
    rw [hc] at h
    rw [findDev_of_filter_nil h] at hd
    cases hd
  | some v =>
    rw [hc] at h
    obtain ⟨d', hd', hview⟩ := h
    rw [findDev_of_filter hd', Option.some.injEq] at hd
    subst hd
    exact ⟨v, rfl, hd', hview⟩

theorem store_eq_none (hs : s.Inv) {c : ℕ} (hd : s.env.findDev c = none) : s.store c = none := by
  have h := hs.holds c
  cases hc : s.store c with
  | none => rfl
  | some v =>
    rw [hc] at h
    obtain ⟨d', hd', -⟩ := h
    rw [findDev_of_filter hd'] at hd
    cases hd

/-- The node of a characteristic, and its value in the store. -/
theorem attr (hs : s.Inv) {c h : ℕ} {x : AttrNode} (hx : s.env.findAttr c h = some x) :
    ∃ d v, s.store c = some v ∧ s.env.connDevList.filter (·.connHandle = c) = [d] ∧
      (∀ h, d.view h = (v h).toList) ∧ d.attrs.filter (·.charHandle = h) = [x] ∧
        v h = some x.contents := by
  cases hd : s.env.findDev c with
  | none =>
    rw [AdpEnv.findAttr, hd] at hx
    cases hx
  | some d =>
    obtain ⟨v, hv, hfilter, hview⟩ := hs.device hd
    refine ⟨d, v, hv, hfilter, hview, ?_⟩
    cases hvh : v h with
    | none =>
      have hnil := hview h
      rw [hvh] at hnil
      rw [findAttr_of_view_nil hfilter hnil] at hx
      cases hx
    | some w =>
      have hone := hview h
      rw [hvh] at hone
      obtain ⟨y, hy, hyw, hfind⟩ := findAttr_of_view hfilter hone
      rw [hfind, Option.some.injEq] at hx
      subst hx
      exact ⟨hy, by rw [hyw]⟩

theorem node (hs : s.Inv) {c h : ℕ} {x : AttrNode} (hx : s.env.findAttr c h = some x) :
    x.value.length = x.maxValueLen ∧ x.currValueLen ≤ x.maxValueLen := by
  obtain ⟨d, -, -, hd, -, hxd, -⟩ := hs.attr hx
  have hd' : d ∈ s.env.connDevList.filter (·.connHandle = c) := by
    rw [hd]
    exact mem_singleton_self d
  have hx' : x ∈ d.attrs.filter (·.charHandle = h) := by
    rw [hxd]
    exact mem_singleton_self x
  exact hs.nodes d (mem_filter.mp hd').1 x (mem_filter.mp hx').1

/-- Without a node there is no value. -/
theorem modify_of_findAttr (hs : s.Inv) {c h : ℕ}
    (hx : s.env.findAttr c h = none) : s.store.modify c h g = s.store := by
  funext c'
  rw [GattSpec.modify]
  by_cases hc : c' = c
  · subst hc
    rw [update_self]
    cases hd : s.env.findDev c' with
    | none => rw [hs.store_eq_none hd]; rfl
    | some d =>
      obtain ⟨v, hv, hfilter, hview⟩ := hs.device hd
      rw [hv, map_some, Option.some.injEq]
      cases hvh : v h with
      | none => rw [map_none, ← hvh, update_eq_self]
      | some w =>
        have hone := hview h
        rw [hvh] at hone
        obtain ⟨y, -, -, hfind⟩ := findAttr_of_view hfilter hone
        rw [hfind] at hx
        cases hx
  · rw [update_of_ne hc]

end GattRun.Inv

namespace GattRun.Inv

variable {s : GattRun}

/-- A node is changed in place: the store changes at one connection and one characteristic. -/
theorem updateAttr (hs : s.Inv) {c h : ℕ}
    {x : AttrNode} (hx : s.env.findAttr c h = some x)
    (hhandle : ∀ x, (f x).charHandle = x.charHandle) (hid : ∀ x, (f x).id = x.id)
    (hcontents : (f x).contents = g x.contents)
    (hnode : (f x).value.length = (f x).maxValueLen ∧ (f x).currValueLen ≤ (f x).maxValueLen) :
    GattRun.Inv ⟨s.env.updateDev c fun d => d.updateAttr h f, s.store.modify c h g⟩ := by
  obtain ⟨d, v, hv, hd, hview, hxd, hvx⟩ := hs.attr hx
  have hlive : (s.env.updateDev c fun d => d.updateAttr h f).live = s.env.live :=
    live_updateDev fun d => map_id_updateAttr hid
  constructor
  · constructor
    · intro c'
      dsimp only
      by_cases hc : c' = c
      · subst hc
        rw [GattSpec.modify, update_self, hv, map_some]
        refine ⟨d.updateAttr h f, filter_updateDev_self (fun _ => rfl) hd, fun h' => ?_⟩
        by_cases hh : h' = h
        · subst hh
          rw [update_self, view_updateAttr_self hhandle hxd, hvx, hcontents]
          rfl
        · rw [update_of_ne hh, view_updateAttr_of_ne hhandle hh, hview]
      · rw [GattSpec.modify, update_of_ne hc]
        exact holds_updateDev_of_ne (f := fun d => ConnDev.updateAttr d h f) (fun _ => rfl) hc
          (hs.holds c')
    · intro id
      rw [hlive]
      exact hs.blocks id
  · exact hs.attrs_nodup
  · intro d' hd' y hy
    rcases Table.mem_update hd' with hd' | ⟨d'', hd'', hcd, rfl⟩
    · exact hs.nodes d' hd' y hy
    · have hmem : d'' ∈ s.env.connDevList.filter (·.connHandle = c) :=
        mem_filter.mpr ⟨hd'', hcd⟩
      rw [hd, mem_singleton] at hmem
      subst hmem
      rcases Table.mem_update hy with hy | ⟨z, hz, hzh, rfl⟩
      · exact hs.nodes d'' hd'' y hy
      · have hmem : z ∈ d''.attrs.filter (·.charHandle = h) := mem_filter.mpr ⟨hz, hzh⟩
        rw [hxd, mem_singleton] at hmem
        exact hmem ▸ hnode

/-- A node is replaced by a larger one. -/
theorem replaceAttr (hs : s.Inv) {c h : ℕ} {x new : AttrNode}
    (hx : s.env.findAttr c h = some x) (hnew : new.charHandle = h) (hid : new.id = s.env.allocs)
    (hmax : new.maxValueLen = data.length) (hcurr : new.currValueLen = data.length)
    (hvalue : new.value = data) :
    GattRun.Inv
      ⟨{ s.env.updateDev c (fun d => d.replaceAttr h new) with
          allocs := s.env.allocs + 1
          freed := s.env.freed ++ [x.id] }, s.store.modify c h fun _ => data⟩ := by
  obtain ⟨d, v, hv, hd, hview, hxd, hvx⟩ := hs.attr hx
  have hxmem : x ∈ d.attrs.filter (·.charHandle = h) := hxd ▸ mem_singleton_self x
  constructor
  · constructor
    · intro c'
      dsimp only
      refine AdpEnv.Holds.congr (e := s.env.updateDev c fun d => d.replaceAttr h new) rfl ?_
      by_cases hc : c' = c
      · subst hc
        rw [GattSpec.modify, update_self, hv, map_some]
        refine ⟨_, filter_updateDev_self (fun _ => rfl) hd, fun h' => ?_⟩
        rw [ConnDev.view, ConnDev.replaceAttr, filter_append]
        by_cases hh : h' = h
        · subst hh
          rw [update_self, hvx, Table.filter_eraseP_self hxd, nil_append,
            filter_cons_of_pos (by simpa using hnew), filter_nil, map_singleton,
            AttrNode.contents, hvalue, hcurr, take_length]
          rfl
        · have hother : ∀ y : AttrNode, decide (y.charHandle = h) = true →
              decide (y.charHandle = h') = false := fun y hy => by
            rw [of_decide_eq_true hy]
            exact decide_eq_false (Ne.symm hh)
          rw [update_of_ne hh, ← hview h', Table.filter_eraseP_of_not hother,
            filter_cons_of_neg (by rw [hother new (decide_eq_true hnew)]; exact nofun),
            filter_nil, append_nil, ConnDev.view]
      · rw [GattSpec.modify, update_of_ne hc]
        exact holds_updateDev_of_ne (f := fun d => ConnDev.replaceAttr d h new) (fun _ => rfl) hc
          (hs.holds c')
    · -- the new block is in use, the old one freed
      intro id
      obtain ⟨y, l₁, l₂, -, hy, hl, herase⟩ := exists_of_eraseP
        (p := fun y => decide (y.charHandle = h)) (mem_filter.mp hxmem).1
        (mem_filter.mp hxmem).2
      have hyx : y ∈ d.attrs.filter (·.charHandle = h) :=
        mem_filter.mpr ⟨hl ▸ mem_append_right _ mem_cons_self, hy⟩
      rw [hxd, mem_singleton] at hyx
      subst hyx
      have hcount := count_live_updateDev (f := fun d => d.replaceAttr h new) id hd
      have hblocks := hs.blocks id
      have hlive : AdpEnv.live
          { s.env.updateDev c (fun d => d.replaceAttr h new) with
            allocs := s.env.allocs + 1
            freed := s.env.freed ++ [y.id] } =
          (s.env.updateDev c fun d => d.replaceAttr h new).live := rfl
      rw [ConnDev.replaceAttr, herase, hl] at hcount
      rw [hlive]
      simp only [map_append, map_cons, map_nil, count_append,
        count_cons, count_nil, beq_iff_eq, hid] at hcount ⊢
      split_ifs at hcount hblocks ⊢ <;> omega
  · exact hs.attrs_nodup
  · intro d' hd' y hy
    rcases Table.mem_update hd' with hd' | ⟨d'', hd'', -, rfl⟩
    · exact hs.nodes d' hd' y hy
    · rcases mem_append.mp hy with hy | hy
      · exact hs.nodes d'' hd'' y (mem_of_mem_eraseP hy)
      · rw [mem_singleton] at hy
        subst hy
        exact ⟨by rw [hvalue, hmax], Nat.le_of_eq (hcurr.trans hmax.symm)⟩

/-- A value is set. -/
theorem valueSet (hs : s.Inv) (c h : ℕ) (data : List UInt8) :
    GattRun.Inv ⟨s.env.valueSet c h data, s.store.modify c h fun _ => data⟩ := by
  unfold AdpEnv.valueSet
  split
  · rename_i hx
    rw [hs.modify_of_findAttr hx]
    exact hs
  · rename_i x hx
    split
    · refine hs.replaceAttr hx ?_ rfl rfl rfl rfl
      obtain ⟨d, -, -, -, -, hxd, -⟩ := hs.attr hx
      have hmem : x ∈ d.attrs.filter (·.charHandle = h) := hxd ▸ mem_singleton_self x
      exact of_decide_eq_true (mem_filter.mp hmem).2
    · rename_i hfits
      have hlen := (hs.node hx).1
      refine hs.updateAttr hx (fun _ => rfl) (fun _ => rfl) ?_ ⟨?_, ?_⟩
      · exact take_left
      · simp only [AttrNode.setValue, length_append, length_drop]
        omega
      · simp only [AttrNode.setValue]
        omega

/-- The other side writes. -/
theorem peerWrite (hs : s.Inv) {conidx svcId handle offset : ℕ}
    (hcalm : GattEvent.Calm s (.peerWrite conidx svcId handle offset data)) :
    GattRun.Inv ⟨s.env.peerWrite conidx svcId handle offset data,
      GattEvent.spec (.peerWrite conidx svcId handle offset data) s.env s.store⟩ := by
  unfold GattEvent.Calm at hcalm
  cases hd : s.env.findConidx conidx with
  | none =>
    simp only [AdpEnv.peerWrite, GattEvent.spec, hd]
    exact hs
  | some d =>
    have hok := hcalm d hd
    cases hx : s.env.findAttr d.connHandle handle with
    | none =>
      simp only [AdpEnv.peerWrite, GattEvent.spec, AdpEnv.accepts, hd, hx, ite_self]
      exact hs
    | some x =>
      have hlen := (hs.node hx).1
      by_cases hlong : x.maxValueLen < data.length + offset
      · have haccepts : s.env.accepts d.connHandle handle offset data = false := by
          rw [AdpEnv.accepts, hx]
          exact decide_eq_false (by omega)
        simp only [AdpEnv.peerWrite, GattEvent.spec, haccepts, hd, hx, if_pos hlong, ite_self]
        exact hs
      · have haccepts : s.env.accepts d.connHandle handle offset data = true := by
          rw [AdpEnv.accepts, hx]
          exact decide_eq_true (by omega)
        obtain ⟨hcccd, hoffset⟩ := hok haccepts
        have hle := hoffset x hx
        simp only [AdpEnv.peerWrite, GattEvent.spec, haccepts, hd, hx, if_neg hlong, hcccd,
          Bool.false_eq_true, if_false, if_true]
        refine hs.updateAttr hx (fun _ => rfl) (fun _ => rfl) ?_ ⟨?_, ?_⟩
        · -- the value up to the offset, and the bytes written
          have htake : (x.value.take offset ++ data).length = offset + data.length := by
            rw [length_append, length_take]
            omega
          rw [AttrNode.contents, AttrNode.contents, AttrNode.write, take_take,
            Nat.min_eq_left hle]
          exact take_left' htake
        · simp only [AttrNode.write, length_append, length_take, length_drop]
          omega
        · simp only [AttrNode.write]
          omega

end GattRun.Inv

/-! ### Links -/

/-- The values of new nodes are zeros. -/
theorem newNodes_view (l : List (AttrInfo × ℕ × ℕ)) (n h : ℕ) :
    (((l.zipIdx n).map newNode).filter (·.charHandle = h)).map AttrNode.contents =
      ((l.map Prod.snd).filter (·.1 = h)).map fun x => List.replicate x.2 0 := by
  induction l generalizing n with
  | nil => rfl
  | cons x l ih =>
    have hhandle : (newNode (x, n)).charHandle = x.2.1 := rfl
    rw [zipIdx_cons, map_cons, map_cons, filter_cons, filter_cons, hhandle]
    by_cases hx : x.2.1 = h
    · rw [if_pos (decide_eq_true hx), if_pos (decide_eq_true hx), map_cons, map_cons, ih]
      congr 1
      rw [AttrNode.contents, newNode, take_of_length_le (by simp)]
    · rw [if_neg fun ht => hx (of_decide_eq_true ht), if_neg fun ht => hx (of_decide_eq_true ht),
        ih]

/-- New nodes are new blocks. -/
theorem count_newNodes (l : List (AttrInfo × ℕ × ℕ)) (n id : ℕ) :
    (((l.zipIdx n).map newNode).map AttrNode.id).count id =
      if n ≤ id ∧ id < n + l.length then 1 else 0 := by
  have hids : ((l.zipIdx n).map newNode).map AttrNode.id = List.range' n l.length := by
    rw [List.map_map, ← zipIdx_map_snd n l]
    rfl
  rw [hids, List.Nodup.count nodup_range']
  simp only [mem_range'_1]

/-- When one service at most has characteristics, no two characteristics have the same handle. -/
theorem chars_nodup (hl : ∀ a ∈ l, (a.attrs.map Prod.fst).Nodup)
    (h : (l.filter (·.attrs ≠ [])).length ≤ 1) :
    (((l.map AttrInfo.attrs).flatten).map Prod.fst).Nodup := by
  induction l with
  | nil => exact nodup_nil
  | cons a l ih =>
    rw [map_cons, flatten_cons]
    by_cases ha : a.attrs = []
    · rw [filter_cons_of_neg (by simpa using ha)] at h
      rw [ha]
      exact ih (fun b hb => hl b (mem_cons_of_mem a hb)) h
    · rw [filter_cons_of_pos (by simpa using ha), length_cons] at h
      have hrest := eq_nil_of_length_eq_zero (Nat.le_zero.mp (Nat.le_of_succ_le_succ h))
      have hflat : (l.map AttrInfo.attrs).flatten = [] := by
        rw [flatten_eq_nil_iff]
        intro b hb
        obtain ⟨a', ha', rfl⟩ := mem_map.mp hb
        by_contra hne
        exact filter_eq_nil_iff.mp hrest a' ha' (by simpa using hne)
      rw [hflat, append_nil]
      exact hl a mem_cons_self

namespace GattRun.Inv

variable {s : GattRun}

/-- A device is put at the end. -/
theorem newDev (hs : s.Inv) {c : ℕ} (hd : s.env.findDev c = none) :
    GattRun.Inv
      ⟨{ s.env with connDevList := s.env.connDevList ++ [ConnDev.mk c 0 .client []] },
        update s.store c (some fun _ => none)⟩ := by
  have hnil : s.env.connDevList.filter (·.connHandle = c) = [] := by
    have h := hs.holds c
    rwa [hs.store_eq_none hd] at h
  constructor
  · constructor
    · intro c'
      dsimp only
      by_cases hc : c' = c
      · subst hc
        rw [update_self]
        refine ⟨ConnDev.mk c' 0 .client [], ?_, fun _ => rfl⟩
        rw [filter_append, hnil, filter_cons_of_pos (by simp)]
        rfl
      · have hfilter : (s.env.connDevList ++ [ConnDev.mk c 0 .client []]).filter
            (·.connHandle = c') = s.env.connDevList.filter (·.connHandle = c') := by
          rw [filter_append, filter_cons_of_neg (by simpa using Ne.symm hc),
            filter_nil, append_nil]
        rw [update_of_ne hc]
        have h := hs.holds c'
        cases hv : s.store c' with
        | none =>
          rw [hv] at h
          exact hfilter.trans h
        | some v =>
          rw [hv] at h
          obtain ⟨d, hd, hview⟩ := h
          exact ⟨d, hfilter.trans hd, hview⟩
    · intro id
      rw [← hs.blocks id, AdpEnv.live, AdpEnv.live]
      simp
  · exact hs.attrs_nodup
  · intro d hd x hx
    rcases mem_append.mp hd with hd | hd
    · exact hs.nodes d hd x hx
    · rw [mem_singleton] at hd
      subst hd
      exact absurd hx not_mem_nil

/-- What is noted of a link does not change its nodes. -/
theorem setLink (hs : s.Inv) (c conidx : ℕ) (role : BleRole) :
    GattRun.Inv
      ⟨s.env.updateDev c fun d => { d with conidx := conidx, role := role }, s.store⟩ := by
  have hlive : (s.env.updateDev c fun d => { d with conidx := conidx, role := role }).live =
      s.env.live := live_updateDev fun _ => rfl
  constructor
  · constructor
    · intro c'
      by_cases hc : c' = c
      · subst hc
        have h := hs.holds c'
        cases hv : s.store c' with
        | none =>
          rw [hv] at h
          rw [AdpEnv.updateDev, Table.update_of_filter_eq_nil h]
          exact h
        | some v =>
          rw [hv] at h
          obtain ⟨d, hd, hview⟩ := h
          exact ⟨_, filter_updateDev_self (fun _ => rfl) hd, hview⟩
      · exact holds_updateDev_of_ne (f := fun d => { d with conidx := conidx, role := role })
          (fun _ => rfl) hc (hs.holds c')
    · intro id
      rw [hlive]
      exact hs.blocks id
  · exact hs.attrs_nodup
  · intro d hd x hx
    rcases Table.mem_update hd with hd | ⟨d', hd', -, rfl⟩
    · exact hs.nodes d hd x hx
    · exact hs.nodes d' hd' x hx

end GattRun.Inv

namespace GattRun.Inv

variable {s : GattRun}

/-- Nodes for the characteristics, when there are none and one service at most has
characteristics. -/
theorem allocAttrs (hs : s.Inv) {c : ℕ} {d : ConnDev} (hd : s.env.findDev c = some d)
    (hnone : d.attrs = []) (hone : (s.env.srvAttrList.filter (·.attrs ≠ [])).length ≤ 1) :
    GattRun.Inv
      ⟨s.env.allocAttrs c, update s.store c
        (some fun h => (s.env.chars.lookup h).map fun len => List.replicate len 0)⟩ := by
  obtain ⟨v, hv, hfilter, hview⟩ := hs.device hd
  unfold AdpEnv.allocAttrs
  dsimp only
  constructor
  · constructor
    · intro c'
      dsimp only
      refine AdpEnv.Holds.congr (e := s.env.updateDev c _) rfl ?_
      by_cases hc : c' = c
      · subst hc
        rw [update_self]
        refine ⟨_, filter_updateDev_self (fun _ => rfl) hfilter, fun h => ?_⟩
        rw [ConnDev.view]
        rw [hnone, nil_append, newNodes_view, attrsFrom_of_le_one hone (Or.inl rfl)]
        exact lookup_toList (chars_nodup hs.attrs_nodup hone) h fun len => List.replicate len 0
      · rw [update_of_ne hc]
        refine holds_updateDev_of_ne (fun _ => ?_) hc (hs.holds c')
        rfl
    · intro id
      have hblocks := hs.blocks id
      have hcount := count_live_updateDev (f := fun d =>
        { d with
          attrs := d.attrs ++ ((attrsFrom 0 s.env.srvAttrList).zipIdx s.env.allocs).map newNode })
        id hfilter
      dsimp only at hcount ⊢
      rw [hnone, nil_append, count_newNodes, map_nil, count_nil,
        Nat.add_zero] at hcount
      change (s.env.updateDev c _).live.count id + _ = _
      rw [hcount, length_map, length_zipIdx]
      change _ + s.env.freed.count id = _
      split_ifs at hblocks ⊢ <;> omega
  · exact hs.attrs_nodup
  · intro d' hd' x hx
    rcases Table.mem_update hd' with hd' | ⟨d'', hd'', -, rfl⟩
    · exact hs.nodes d' hd' x hx
    · rcases mem_append.mp hx with hx | hx
      · exact hs.nodes d'' hd'' x hx
      · obtain ⟨y, -, rfl⟩ := mem_map.mp hx
        exact ⟨length_replicate, Nat.le_refl _⟩

/-- A link is up. -/
theorem connected (hs : s.Inv) {c conidx : ℕ} {role : BleRole}
    (hcalm : GattEvent.Calm s (.connected c conidx role)) :
    GattRun.Inv ⟨s.env.connected c conidx role, s.store.connected c role s.env.chars⟩ := by
  unfold AdpEnv.connected
  cases hd : s.env.findDev c with
  | some d =>
    obtain ⟨v, hv, hfilter, hview⟩ := hs.device hd
    have hlink := hs.setLink c conidx role
    cases role with
    | client =>
      have hsame : s.store.connected c .client s.env.chars = s.store := by
        rw [GattSpec.connected, hv]
        exact (congrArg (update s.store c) hv.symm).trans (update_eq_self c _)
      rw [hsame]
      exact hlink
    | server =>
      obtain ⟨hnone, hone⟩ := hcalm
      exact hlink.allocAttrs
        (findDev_of_filter (filter_updateDev_self (fun _ => rfl) hfilter))
        (isEmpty_iff.mp (hnone d hd)) hone
  | none =>
    have hnew := hs.newDev hd
    have hlink := hnew.setLink c conidx role
    have hv := hs.store_eq_none hd
    cases role with
    | client =>
      rw [GattSpec.connected, hv]
      exact hlink
    | server =>
      obtain ⟨-, hone⟩ := hcalm
      have hdev : AdpEnv.findDev
          { s.env with connDevList := s.env.connDevList ++ [ConnDev.mk c 0 .client []] } c =
          some (ConnDev.mk c 0 .client []) := by
        rw [AdpEnv.findDev] at hd ⊢
        rw [List.find?_append, hd, none_or, List.find?_cons_of_pos (by simp)]
      obtain ⟨v, -, hfilter, -⟩ := hnew.device hdev
      have halloc := hlink.allocAttrs
        (findDev_of_filter (filter_updateDev_self (fun _ => rfl) hfilter)) rfl hone
      rw [update_idem] at halloc
      exact halloc

/-- A link is down: the device's nodes are freed. -/
theorem disconnected (hs : s.Inv) (c : ℕ) :
    GattRun.Inv ⟨s.env.disconnected c, s.store.disconnected c⟩ := by
  unfold AdpEnv.disconnected GattSpec.disconnected
  cases hd : s.env.findDev c with
  | none =>
    rw [← hs.store_eq_none hd, update_eq_self]
    exact hs
  | some d =>
    obtain ⟨v, hv, hfilter, hview⟩ := hs.device hd
    constructor
    · constructor
      · intro c'
        dsimp only
        by_cases hc : c' = c
        · subst hc
          rw [update_self]
          exact Table.filter_eraseP_self hfilter
        · have hsame : (s.env.connDevList.eraseP fun d => decide (d.connHandle = c)).filter
              (·.connHandle = c') = s.env.connDevList.filter (·.connHandle = c') := by
            refine Table.filter_eraseP_of_not fun d hd => ?_
            rw [of_decide_eq_true hd]
            exact decide_eq_false (Ne.symm hc)
          rw [update_of_ne hc]
          have h := hs.holds c'
          cases hv : s.store c' with
          | none =>
            rw [hv] at h
            exact hsame.trans h
          | some v =>
            rw [hv] at h
            obtain ⟨d, hd, hview⟩ := h
            exact ⟨d, hsame.trans hd, hview⟩
      · intro id
        have hmem : d ∈ s.env.connDevList.filter (·.connHandle = c) :=
          hfilter ▸ mem_singleton_self d
        obtain ⟨d', l₁, l₂, -, hd', hl, herase⟩ := exists_of_eraseP
          (p := fun d => decide (d.connHandle = c)) (mem_filter.mp hmem).1
          (mem_filter.mp hmem).2
        have hmem' : d' ∈ s.env.connDevList.filter (·.connHandle = c) :=
          mem_filter.mpr ⟨hl ▸ mem_append_right _ mem_cons_self, hd'⟩
        rw [hfilter, mem_singleton] at hmem'
        subst hmem'
        have hblocks := hs.blocks id
        rw [AdpEnv.live, hl] at hblocks
        rw [AdpEnv.live]
        rw [herase, ← hblocks]
        simp only [map_append, map_cons, flatten_append, flatten_cons,
          count_append]
        omega
    · exact hs.attrs_nodup
    · exact fun d' hd' => hs.nodes d' (mem_of_mem_eraseP hd')

/-- One event. -/
theorem step (hs : s.Inv) {i : GattEvent} {t : GattRun} (hcalm : GattEvent.Calm s i)
    (hi : gattStep i s = some t) : t.Inv := by
  unfold gattStep at hi
  split at hi
  · rw [Option.some.injEq] at hi
    subst hi
    cases i with
    | addService svc sent result => exact hs.addService svc sent result
    | svcAddRsp svcId ok => exact hs.svcAddRsp svcId ok
    | connected connHdl conidx role => exact hs.connected hcalm
    | disconnected connHdl => exact hs.disconnected connHdl
    | valueSet connHandle charHandle data => exact hs.valueSet connHandle charHandle data
    | peerWrite conidx svcId handle offset data => exact hs.peerWrite hcalm
  · cases hi

end GattRun.Inv

/-- **In a run in which every link that comes up as the server's has no nodes yet and one service
with characteristics at most, and the accepted writes go to values without leaving gaps, the nodes
are the store.** -/
theorem store_calm {s : GattRun} (h : Machine.Reach gattStep GattEvent.Calm gattInit s) :
    StoreRight s :=
  (h.invariant gattInit_inv fun hs hcalm hi => hs.step hcalm hi).toStoreRight

/-- A service with one characteristic. -/
def oneCharService (uuid16 : ℕ) : ServiceParams where
  type := .primary
  chars := [⟨uuid16, true, false⟩]
  charNum_lt := by simp

/-- A service is added, a link comes up, the value is set, written at an offset and set to something
longer than there was room for, on a second link it is written as well, and the first one goes
down. -/
def storeRun : List GattEvent :=
  [.addService (oneCharService 0xFFF1) true (some 1), .svcAddRsp 1 true, .connected 5 0 .server,
    .valueSet 5 0x102 [1, 2], .peerWrite 0 1 0x102 2 [3], .connected 6 1 .server,
    .valueSet 5 0x102 (List.replicate 600 7), .peerWrite 1 1 0x102 0 [9], .disconnected 5]

theorem store_calm_storeRun :
    ∃ s, Machine.run gattStep storeRun gattInit = some s ∧ s.env.freed.length = 2 ∧
      s.env.allocs = 3 ∧ StoreRight s := by
  have hrun : Machine.run gattStep storeRun gattInit = some _ := rfl
  have hmeets : Machine.Meets gattStep GattEvent.Calm storeRun gattInit := by decide +kernel
  exact ⟨_, hrun, by decide +kernel, by decide +kernel, store_calm (.of_run_of_meets hrun hmeets)⟩

/-- Two services with a characteristic each are added, and a link comes up. -/
def twoServicesRun : List GattEvent :=
  [.addService (oneCharService 0xFFF1) true (some 1), .svcAddRsp 1 true,
    .addService (oneCharService 0xFFF2) true (some 2), .svcAddRsp 2 true, .connected 5 0 .server]

/-- **With two services the second one's characteristics have no nodes.** -/
theorem not_store_twoServices :
    ∃ s, Machine.Reach gattStep (fun _ _ => True) gattInit s ∧ ¬ StoreRight s := by
  have hrun : Machine.run gattStep twoServicesRun gattInit = some _ := rfl
  refine ⟨_, .of_run hrun, fun h => ?_⟩
  -- the second service's characteristic has the handle 0x106
  obtain ⟨d, hd, hview⟩ := h.holds 5
  have hnodes := congrArg (List.map fun d => (d.view 0x106).length) hd
  have hlen := congrArg List.length (hview 0x106)
  rw [map_singleton, hlen] at hnodes
  revert hnodes
  decide +kernel

end Gd32.Ble
