import Gd32Firmware.Ble.GattStore
import Gd32Firmware.Util.CString

/-!
# Requests to the BLE application task

The `tuya_hal_*` calls of `tuya_ble_hal.c` do not call the stack themselves: each copies its data
into blocks of the heap, puts a message with the pointers into the queue of the BLE application
task, and returns; the task's handlers make the calls of the stack and release the blocks, or leave
them to the environment of the adapter.

`requests_calm` says in which runs every block is released once and every request that
concerns no connection is carried out, `not_requests_nameSet` that this is not so in every
run.
-/

namespace Gd32.Ble

open List Option

/-! ### Messages -/

/-- A block of the heap with its contents. -/
structure HeapBlock (α : Type) where
  id : ℕ
  data : α

/-- `OPERATE_RET`, as far as the calls return it. -/
inductive OperateRet where
  | ok
  | initFailed
  | mallocFailed
  | resourceNotReady
  | notSupported
  | notifyFailed
  | indicateFailed
  | writeFailed
  deriving DecidableEq

/-- `TKL_BLE_UUID_TYPE_E`, and the lengths that go with it. -/
inductive UuidLen where
  | uuid16
  | uuid32
  | uuid128

/-- The subtypes of `TKL_BLE_APP_GATTS` with a value. -/
inductive ValType where
  | setVal
  | valNotify
  | valInd

/-- The subtypes of `TKL_BLE_APP_GATTC` with a value. -/
inductive WriteType where
  | writeCmd
  | writeReq

/-- `tkl_app_msg_t`, with the messages that hold pointers. -/
inductive AppMsg where
  /-- `ADV_SUBTYPE_DATA_SET`. -/
  | advDataSet (advData rspData : Option (HeapBlock (List UInt8)))
  /-- `ADV_SUBTYPE_DATA_UPD`. -/
  | advDataUpd (advData rspData : Option (HeapBlock (List UInt8)))
  | nameSet (connHandle : ℕ) (name : HeapBlock (List UInt8))
  | addSrvs (uuidLen : UuidLen) (uuid128 : List UInt8) (startHandle totalHandles : ℕ)
    (srvTable : HeapBlock (List ℕ)) (attrInfo : HeapBlock (List (ℕ × ℕ)))
  /-- `GATTS_SUBTYPE_SET_VAL`, `GATTS_SUBTYPE_VAL_NOTIFY` and `GATTS_SUBTYPE_VAL_IND`. -/
  | val (type : ValType) (connHandle charHandle : ℕ) (data : HeapBlock (List UInt8))
  /-- `GATTC_SUBTYPE_WRITE_CMD` and `GATTC_SUBTYPE_WRITE_REQ`. -/
  | write (type : WriteType) (connHandle charHandle : ℕ) (value : HeapBlock (List UInt8))

/-- What the handlers bring about. -/
inductive Effect where
  /-- The data of the advertising that is started next. -/
  | advData (adv rsp : Option (List UInt8))
  /-- `ble_adv_data_update`. -/
  | advDataUpdate (adv rsp : Option (List UInt8))
  /-- `ble_adp_name_set`. -/
  | adpNameSet (name : List UInt8)
  /-- `ble_gatts_svc_add`. -/
  | gattsSvcAdd (uuidLen : UuidLen) (uuid128 : List UInt8) (startHandle totalHandles : ℕ)
    (table : List ℕ)
  /-- The value of a characteristic is set. -/
  | valueSet (connHandle charHandle : ℕ) (data : List UInt8)
  /-- `ble_gatts_ntf_ind_send_by_handle`. -/
  | ntfIndSend (type : ValType) (conidx charHandle : ℕ) (data : List UInt8)
  /-- `ble_gattc_co_write_cmd` and `ble_gattc_co_write_req`. -/
  | gattcCoWrite (type : WriteType) (conidx charHandle : ℕ) (value : List UInt8)

/-- `tkl_conn_dev_node_t`, without its nodes. -/
structure DevNode where
  connHandle : ℕ
  conidx : ℕ

/-- `adp_env`, the queue and the heap, as far as requests go. -/
structure ReqEnv where
  /-- `adapter_state` is `TUYA_ADP_INITIALED`. -/
  initialed : Bool
  connDevList : List DevNode
  srvAddHandle : ℕ
  /-- `srv_attr_list`: the numbers of the services, and the blocks. -/
  srvAttrList : List (ℕ × HeapBlock (List (ℕ × ℕ)))
  /-- `adv_info.state` is `BLE_ADV_STATE_START`. -/
  advStarted : Bool
  /-- `adv_info.p_adv`. -/
  advData : Option (HeapBlock (List UInt8))
  /-- `adv_info.p_rsp`. -/
  rspData : Option (HeapBlock (List UInt8))
  /-- The messages that have not been handled. -/
  queue : List AppMsg
  /-- The number of blocks allocated so far. -/
  allocs : ℕ
  freed : List ℕ
  /-- What the handlers have brought about so far. -/
  effects : List Effect

/-- The adapter when it has been initialised. -/
def reqEnvInit : ReqEnv where
  initialed := true
  connDevList := []
  srvAddHandle := 0x100
  srvAttrList := []
  advStarted := false
  advData := none
  rspData := none
  queue := []
  allocs := 0
  freed := []
  effects := []

/-- `tkl_ble_find_dev_by_conn_handle`. -/
def ReqEnv.findDev (e : ReqEnv) (connHandle : ℕ) : Option DevNode :=
  e.connDevList.find? (·.connHandle = connHandle)

/-- `sys_malloc` and the copy into the block; `ok` is that there is room. -/
def ReqEnv.malloc {α : Type} (e : ReqEnv) (ok : Bool) (data : α) : Option (HeapBlock α × ReqEnv) :=
  if ok then some (⟨e.allocs, data⟩, { e with allocs := e.allocs + 1 }) else none

/-- A block for data that may be missing. -/
def ReqEnv.mallocOpt {α : Type} (e : ReqEnv) (ok : Bool) :
    Option α → Option (Option (HeapBlock α) × ReqEnv)
  | none => some (none, e)
  | some data => (e.malloc ok data).map fun r => (some r.1, r.2)

/-- `sys_mfree`. -/
def ReqEnv.mfree {α : Type} (e : ReqEnv) (p : HeapBlock α) : ReqEnv :=
  { e with freed := e.freed ++ [p.id] }

/-- `sys_mfree` of a pointer that may be `NULL`. -/
def ReqEnv.mfreeOpt {α : Type} (e : ReqEnv) : Option (HeapBlock α) → ReqEnv
  | none => e
  | some p => e.mfree p

/-- `ble_local_app_msg_send`, when the queue takes the message. -/
def ReqEnv.send (e : ReqEnv) (msg : AppMsg) : ReqEnv := { e with queue := e.queue ++ [msg] }

/-- Something is brought about. -/
def ReqEnv.effect (e : ReqEnv) (x : Effect) : ReqEnv := { e with effects := e.effects ++ [x] }

/-! ### Calls -/

/-- `tuya_hal_adv_rsp_data_set` and `tuya_hal_adv_rsp_data_update`, which differ in the message. -/
def ReqEnv.advRspData
    (msg : Option (HeapBlock (List UInt8)) → Option (HeapBlock (List UInt8)) → AppMsg) (e : ReqEnv)
    (adv scanRsp : Option (List UInt8)) (mallocAdv mallocRsp sent : Bool) : OperateRet × ReqEnv :=
  if e.initialed then
    match e.mallocOpt mallocAdv adv with
    | none => (.mallocFailed, e)
    | some (advData, e) =>
      match e.mallocOpt mallocRsp scanRsp with
      | none => (.mallocFailed, e.mfreeOpt advData)
      | some (rspData, e) =>
        if sent then (.ok, e.send (msg advData rspData)) else (.resourceNotReady, e)
  else (.initFailed, e)

/-- `tuya_hal_adv_rsp_data_set`. -/
def ReqEnv.advRspDataSet : ReqEnv → Option (List UInt8) → Option (List UInt8) → Bool → Bool → Bool →
    OperateRet × ReqEnv :=
  ReqEnv.advRspData .advDataSet

/-- `tuya_hal_adv_rsp_data_update`. -/
def ReqEnv.advRspDataUpdate : ReqEnv → Option (List UInt8) → Option (List UInt8) → Bool → Bool →
    Bool → OperateRet × ReqEnv :=
  ReqEnv.advRspData .advDataUpd

/-- A call with one block of data. -/
def ReqEnv.dataCall (e : ReqEnv) (msg : HeapBlock (List UInt8) → AppMsg) (failed : OperateRet)
    (data : List UInt8) (malloc sent : Bool) : OperateRet × ReqEnv :=
  if e.initialed then
    match e.malloc malloc data with
    | none => (.mallocFailed, e)
    | some (p, e) => if sent then (.ok, e.send (msg p)) else (failed, e.mfree p)
  else (.initFailed, e)

/-- `tuya_hal_ble_name_set`. The length is a `uint16_t`; `connHandle` is what the message, which is
not cleared, happens to hold. -/
def ReqEnv.bleNameSet (e : ReqEnv) (name : Option CString) (connHandle : ℕ) (malloc sent : Bool) :
    OperateRet × ReqEnv :=
  match name with
  | none => if e.initialed then (.notSupported, e) else (.initFailed, e)
  | some name =>
    let len := name.len % 65536
    if e.initialed ∧ 512 < len then (.notSupported, e)
    else
      e.dataCall (.nameSet connHandle) .resourceNotReady ((name.bytes ++ [0]).take (len + 1)) malloc
        sent

/-- The error of a value call whose message is not taken. -/
def ValType.failed : ValType → OperateRet
  | .setVal => .resourceNotReady
  | .valNotify => .notifyFailed
  | .valInd => .indicateFailed

/-- `tuya_hal_gatts_value_set`, `tuya_hal_gatts_value_notify` and `tuya_hal_gatts_value_indicate`. -/
def ReqEnv.gattsValue (e : ReqEnv) (type : ValType) (connHandle charHandle : ℕ)
    (data : List UInt8) (malloc sent : Bool) : OperateRet × ReqEnv :=
  e.dataCall (.val type connHandle charHandle) type.failed data malloc sent

/-- `tuya_hal_gattc_write_without_rsp` and `tuya_hal_gattc_write`. -/
def ReqEnv.gattcWrite (e : ReqEnv) (type : WriteType) (connHandle charHandle : ℕ)
    (data : List UInt8) (malloc sent : Bool) : OperateRet × ReqEnv :=
  e.dataCall (.write type connHandle charHandle) .writeFailed data malloc sent

/-- The first attribute of a service of the type. -/
def ServiceType.decl : ServiceType → Option ℕ
  | .primary => some declPrimaryService
  | .secondary => some declSecondaryService
  | .other => none

/-- One service of a call of `tuya_hal_gatts_service_add`, and how what the call needs turns out. -/
structure ServiceCall where
  /-- `svc_uuid.uuid_type`. -/
  uuidLen : UuidLen
  /-- `svc_uuid.uuid`. -/
  uuid128 : List UInt8
  svc : ServiceParams
  /-- There is room for `p_srv_table`. -/
  mallocTable : Bool
  /-- There is room for `p_info`. -/
  mallocInfo : Bool
  sent : Bool

/-- One pass of the loop of `tuya_hal_gatts_service_add`. -/
def ReqEnv.serviceAdd (e : ReqEnv) (c : ServiceCall) : ReqEnv :=
  let start := e.srvAddHandle
  let totalHandles := 1 + calcCharHandleNum c.svc.chars
  let table := (c.svc.type.decl).map fun decl => srvTable decl c.svc.chars
  match e.malloc c.mallocTable (table.getD []) with
  | none => e
  | some (srvTable, e) =>
    match e.malloc c.mallocInfo (attrHandleTuple start 1 c.svc.chars) with
    | none => e.mfree srvTable
    | some (attrInfo, e) =>
      let e := { e with srvAddHandle := (start + totalHandles) % 65536 }
      match table with
      | none => (e.mfree srvTable).mfree attrInfo
      | some table =>
        if c.sent then
          e.send (.addSrvs c.uuidLen c.uuid128 start totalHandles srvTable attrInfo)
        else
          { (e.mfree srvTable).mfree attrInfo with
            srvAddHandle := (e.srvAddHandle + 65536 - table.length) % 65536 }

/-- `tuya_hal_gatts_service_add`. -/
def ReqEnv.gattsServiceAdd (e : ReqEnv) (services : List ServiceCall) : OperateRet × ReqEnv :=
  if e.initialed then (.ok, services.foldl ReqEnv.serviceAdd e) else (.initFailed, e)

/-! ### Handlers -/

/-- The environment takes over advertising data. -/
def ReqEnv.setAdvData (e : ReqEnv) : Option (HeapBlock (List UInt8)) → ReqEnv
  | none => e
  | some p => { e.mfreeOpt e.advData with advData := some p }

/-- The environment takes over scan response data. -/
def ReqEnv.setRspData (e : ReqEnv) : Option (HeapBlock (List UInt8)) → ReqEnv
  | none => e
  | some p => { e.mfreeOpt e.rspData with rspData := some p }

/-- `tkl_ble_app_msg_hdl`, with `handle_adv_msg`, `handle_conn_msg`, `handle_gatts_msg` and
`handle_gattc_msg`; `result` is the number that the stack gives a service, if it adds it. -/
def ReqEnv.msgHdl (e : ReqEnv) (result : Option ℕ) : AppMsg → ReqEnv
  | .advDataSet adv rsp =>
    ((e.setAdvData adv).setRspData rsp).effect
      (.advData (adv.map HeapBlock.data) (rsp.map HeapBlock.data))
  | .advDataUpd adv rsp =>
    if e.advStarted then
      ((e.setAdvData adv).setRspData rsp).effect
        (.advDataUpdate (adv.map HeapBlock.data) (rsp.map HeapBlock.data))
    else (e.mfreeOpt adv).mfreeOpt rsp
  | .nameSet connHandle name =>
    match e.findDev connHandle with
    | none => e
    | some _ =>
      let s := fieldString name.data
      -- the length is a `uint8_t`
      (e.effect (.adpNameSet (s.take (s.length % 256)))).mfree name
  | .addSrvs uuidLen uuid128 startHandle totalHandles table info =>
    let e := e.effect (.gattsSvcAdd uuidLen uuid128 startHandle totalHandles table.data)
    match result with
    | none => e.mfree table
    | some srvId => { e with srvAttrList := e.srvAttrList ++ [(srvId, info)] }.mfree table
  | .val type connHandle charHandle data =>
    match e.findDev connHandle with
    | none => e
    | some d =>
      match type with
      | .setVal => (e.effect (.valueSet connHandle charHandle data.data)).mfree data
      | .valNotify | .valInd =>
        (e.effect (.ntfIndSend type d.conidx charHandle data.data)).mfree data
  | .write type connHandle charHandle value =>
    match e.findDev connHandle with
    | none => e
    | some d => e.effect (.gattcCoWrite type d.conidx charHandle value.data)

/-! ### Steps -/

/-- What can happen. -/
inductive ReqEvent where
  /-- `tuya_hal_adv_rsp_data_set`. -/
  | advRspDataSet (adv scanRsp : Option (List UInt8)) (mallocAdv mallocRsp sent : Bool)
  /-- `tuya_hal_adv_rsp_data_update`. -/
  | advRspDataUpdate (adv scanRsp : Option (List UInt8)) (mallocAdv mallocRsp sent : Bool)
  /-- `tuya_hal_ble_name_set`. -/
  | bleNameSet (name : Option CString) (connHandle : ℕ) (malloc sent : Bool)
  /-- `tuya_hal_gatts_service_add`. -/
  | gattsServiceAdd (services : List ServiceCall)
  | gattsValue (type : ValType) (connHandle charHandle : ℕ) (data : List UInt8)
    (malloc sent : Bool)
  | gattcWrite (type : WriteType) (connHandle charHandle : ℕ) (data : List UInt8)
    (malloc sent : Bool)
  /-- The application task handles the next message. -/
  | handle (result : Option ℕ)
  | connected (connHandle conidx : ℕ)
  | disconnected (connHandle : ℕ)
  | advStateChg (started : Bool)
  /-- The stack answers that a service is there, or is not. -/
  | svcAddRsp (svcId : ℕ) (ok : Bool)
  /-- The adapter has been enabled, or has not. -/
  | enableCmpl (ok : Bool)

/-- What happens, and what a call returns. -/
def ReqEvent.apply (i : ReqEvent) (e : ReqEnv) : Option (Option OperateRet × ReqEnv) :=
  match i with
  | .advRspDataSet adv scanRsp mallocAdv mallocRsp sent =>
    let r := e.advRspDataSet adv scanRsp mallocAdv mallocRsp sent
    some (some r.1, r.2)
  | .advRspDataUpdate adv scanRsp mallocAdv mallocRsp sent =>
    let r := e.advRspDataUpdate adv scanRsp mallocAdv mallocRsp sent
    some (some r.1, r.2)
  | .bleNameSet name connHandle malloc sent =>
    let r := e.bleNameSet name connHandle malloc sent
    some (some r.1, r.2)
  | .gattsServiceAdd services =>
    let r := e.gattsServiceAdd services
    some (some r.1, r.2)
  | .gattsValue type connHandle charHandle data malloc sent =>
    let r := e.gattsValue type connHandle charHandle data malloc sent
    some (some r.1, r.2)
  | .gattcWrite type connHandle charHandle data malloc sent =>
    let r := e.gattcWrite type connHandle charHandle data malloc sent
    some (some r.1, r.2)
  | .handle result =>
    match e.queue with
    | [] => none
    | msg :: queue => some (none, ReqEnv.msgHdl { e with queue := queue } result msg)
  | .connected connHandle conidx =>
    some (none, match e.findDev connHandle with
      | none => { e with connDevList := e.connDevList ++ [⟨connHandle, conidx⟩] }
      | some _ =>
        { e with
          connDevList := Table.update (fun d => d.connHandle = connHandle)
            (fun d => { d with conidx := conidx }) e.connDevList })
  | .disconnected connHandle =>
    some (none, { e with connDevList := e.connDevList.eraseP (·.connHandle = connHandle) })
  | .advStateChg started => some (none, { e with advStarted := started })
  | .svcAddRsp svcId ok =>
    some (none, if ok then e
      else
        match e.srvAttrList.find? (·.1 = svcId) with
        | none => e
        | some info =>
          { e with srvAttrList := e.srvAttrList.eraseP (·.1 = svcId) }.mfree info.2)
  | .enableCmpl ok => some (none, { e with initialed := ok })

/-! ### What is to be so -/

/-- What a call that concerns no connection asks for. -/
inductive Request where
  /-- Data for the advertising that is started next. -/
  | advData (adv rsp : Option (List UInt8))
  /-- Data for the advertising that is going on. -/
  | advDataUpdate (adv rsp : Option (List UInt8))
  | name (bytes : List UInt8)
  /-- A service; without a table when its type is none that can be added. -/
  | service (uuidLen : UuidLen) (uuid128 : List UInt8) (table : Option (List ℕ))

/-- What a call asks for. -/
def ReqEvent.requests : ReqEvent → List Request
  | .advRspDataSet adv scanRsp _ _ _ => [.advData adv scanRsp]
  | .advRspDataUpdate adv scanRsp _ _ _ => [.advDataUpdate adv scanRsp]
  | .bleNameSet name _ _ _ => (name.map fun name => Request.name name.bytes).toList
  | .gattsServiceAdd services =>
    services.map fun c => .service c.uuidLen c.uuid128
      ((c.svc.type.decl).map fun decl => srvTable decl c.svc.chars)
  | _ => []

/-- The request that is carried out. -/
def Effect.request : Effect → Option Request
  | .advData adv rsp => some (.advData adv rsp)
  | .advDataUpdate adv rsp => some (.advDataUpdate adv rsp)
  | .adpNameSet name => some (.name name)
  | .gattsSvcAdd uuidLen uuid128 _ _ table => some (.service uuidLen uuid128 (some table))
  | _ => none

/-- The request that is in a message. -/
def AppMsg.request : AppMsg → Option Request
  | .advDataSet adv rsp => some (.advData (adv.map HeapBlock.data) (rsp.map HeapBlock.data))
  | .advDataUpd adv rsp => some (.advDataUpdate (adv.map HeapBlock.data) (rsp.map HeapBlock.data))
  | .nameSet _ name =>
    let s := fieldString name.data
    some (.name (s.take (s.length % 256)))
  | .addSrvs uuidLen uuid128 _ _ table _ => some (.service uuidLen uuid128 (some table.data))
  | _ => none

/-- The block that a pointer points to, if any. -/
def blockId {α : Type} (p : Option (HeapBlock α)) : List ℕ := (p.map HeapBlock.id).toList

/-- The blocks that a message hands over. -/
def AppMsg.blocks : AppMsg → List ℕ
  | .advDataSet adv rsp => blockId adv ++ blockId rsp
  | .advDataUpd adv rsp => blockId adv ++ blockId rsp
  | .nameSet _ name => [name.id]
  | .addSrvs _ _ _ _ table info => [table.id, info.id]
  | .val _ _ _ data => [data.id]
  | .write _ _ _ value => [value.id]

/-- The blocks that messages hold or the environment has taken over. -/
def ReqEnv.owned (e : ReqEnv) : List ℕ :=
  (e.queue.map AppMsg.blocks).flatten ++ (blockId e.advData ++ (blockId e.rspData ++
    e.srvAttrList.map (·.2.id)))

/-- The requests carried out, and those in messages. -/
def ReqEnv.requests (e : ReqEnv) : List Request :=
  e.effects.filterMap Effect.request ++ e.queue.filterMap AppMsg.request

/-- The adapter, and what calls that have returned `OPRT_OK` have asked for. -/
structure ReqRun where
  env : ReqEnv
  promised : List Request

/-- One event. -/
def reqStep (i : ReqEvent) (s : ReqRun) : Option ReqRun :=
  (i.apply s.env).map fun r =>
    ⟨r.2, if r.1 = some .ok then s.promised ++ i.requests else s.promised⟩

/-- The adapter when it has been initialised, and no request. -/
def reqInit : ReqRun := ⟨reqEnvInit, []⟩

/-- **Every block is released once, every request carried out.** A block is in a message that has not
been handled, or the environment has taken it over, or it has been freed, and that once; and what has
been asked for has been done or is in a message that has not been handled. -/
structure RequestsRight (s : ReqRun) : Prop where
  blocks : Blocks.Accounted s.env.allocs s.env.owned s.env.freed
  carried : s.env.requests = s.promised

/-- What makes a message right to handle: the link is there; the message is not a client's write; the
stack adds the service; data are updated while advertising goes on. -/
def AppMsg.Calm (e : ReqEnv) (result : Option ℕ) : AppMsg → Prop
  | .advDataSet _ _ => True
  | .advDataUpd _ _ => e.advStarted = true
  | .nameSet connHandle _ => (e.findDev connHandle).isSome = true
  | .addSrvs _ _ _ _ _ _ => result.isSome = true
  | .val _ connHandle _ _ => (e.findDev connHandle).isSome = true
  | .write _ _ _ _ => False

/-- A service whose type can be added, with room for its blocks and its message. -/
def ServiceCall.Calm (c : ServiceCall) : Prop :=
  c.svc.type ≠ .other ∧ c.mallocTable = true ∧ c.mallocInfo = true ∧ c.sent = true

/-- A message with advertising data is taken, a name that is taken has less than 256 bytes, services
can be added and there is room for them; and messages are right to handle. -/
def ReqEvent.Calm (s : ReqRun) : ReqEvent → Prop
  | .advRspDataSet adv scanRsp _ _ sent => sent = true ∨ adv = none ∧ scanRsp = none
  | .advRspDataUpdate adv scanRsp _ _ sent => sent = true ∨ adv = none ∧ scanRsp = none
  | .bleNameSet name _ malloc sent =>
    s.env.initialed = true → malloc = true → sent = true →
      ∀ n ∈ name, n.len < 256 ∨ 512 < n.len % 65536
  | .gattsServiceAdd services => s.env.initialed = true → ∀ c ∈ services, c.Calm
  | .handle result => ∀ msg ∈ s.env.queue.head?, msg.Calm s.env result
  | _ => True

/-! ### Blocks change hands -/

/-- With the blocks that the call or the handler holds at the moment, all are accounted for. -/
def ReqEnv.Accounts (e : ReqEnv) (held : List ℕ) : Prop :=
  Blocks.Accounted e.allocs (e.owned ++ held) e.freed

section Hands

variable {e e' : ReqEnv} {held : List ℕ} {α : Type} {p : HeapBlock α} {o : Option (HeapBlock α)}
  {msg : AppMsg} {ok : Bool}

/-- A new block is held. -/
theorem ReqEnv.Accounts.malloc {data : α} (h : e.Accounts held)
    (hp : e.malloc ok data = some (p, e')) :
    e'.Accounts (held ++ [p.id]) ∧ p.data = data ∧ e'.requests = e.requests := by
  unfold ReqEnv.malloc at hp
  split at hp
  · obtain ⟨rfl, rfl⟩ := hp
    refine ⟨?_, rfl, rfl⟩
    have halloc := Blocks.Accounted.alloc h
    rw [append_assoc] at halloc
    exact halloc
  · cases hp

theorem ReqEnv.Accounts.mallocOpt {data : Option α} (h : e.Accounts held)
    (hp : e.mallocOpt ok data = some (o, e')) :
    e'.Accounts (held ++ blockId o) ∧ o.map HeapBlock.data = data ∧ e'.requests = e.requests := by
  cases data with
  | none =>
    obtain ⟨rfl, rfl⟩ := hp
    exact ⟨by rw [blockId, map_none, toList_none, append_nil]; exact h, rfl, rfl⟩
  | some data =>
    rw [ReqEnv.mallocOpt, map_eq_some_iff] at hp
    obtain ⟨⟨p, e''⟩, hp, heq⟩ := hp
    obtain ⟨rfl, rfl⟩ := heq
    obtain ⟨h', hdata, hreq⟩ := h.malloc hp
    exact ⟨h', congrArg some hdata, hreq⟩

/-- What is held can be freed. -/
theorem ReqEnv.Accounts.mfree (h : e.Accounts (p.id :: held)) : (e.mfree p).Accounts held := by
  refine Blocks.Accounted.of_count h fun id => ?_
  simp only [ReqEnv.mfree, ReqEnv.owned, count_append, count_cons, count_nil]
  omega

theorem ReqEnv.Accounts.mfreeOpt (h : e.Accounts (blockId o ++ held)) :
    (e.mfreeOpt o).Accounts held := by
  cases o with
  | none => exact h
  | some p => exact ReqEnv.Accounts.mfree h

/-- What is held can be sent. -/
theorem ReqEnv.Accounts.send (h : e.Accounts (msg.blocks ++ held)) :
    (e.send msg).Accounts held := by
  refine Blocks.Accounted.of_count h fun id => ?_
  simp only [ReqEnv.send, ReqEnv.owned, map_append, map_cons, map_nil,
    flatten_append, flatten_cons, flatten_nil, append_nil, count_append]
  omega

/-- What is in the first message is held by its handler. -/
theorem ReqEnv.Accounts.receive {queue : List AppMsg} (h : e.Accounts held)
    (hq : e.queue = msg :: queue) :
    ReqEnv.Accounts { e with queue := queue } (msg.blocks ++ held) := by
  refine Blocks.Accounted.of_count h fun id => ?_
  simp only [ReqEnv.owned, hq, map_cons, flatten_cons, count_append]
  omega

/-- What is held can be left to the environment. -/
theorem ReqEnv.Accounts.setAdvData {o : Option (HeapBlock (List UInt8))}
    (h : e.Accounts (blockId o ++ held)) : (e.setAdvData o).Accounts held := by
  cases o with
  | none => exact h
  | some p =>
    unfold ReqEnv.setAdvData
    cases hold : e.advData with
    | none =>
      refine Blocks.Accounted.of_count h fun id => ?_
      simp only [ReqEnv.mfreeOpt, ReqEnv.owned, hold, blockId, map_some, map_none,
        toList_some, toList_none, count_append, count_nil]
      omega
    | some q =>
      refine Blocks.Accounted.of_count h fun id => ?_
      simp only [ReqEnv.mfreeOpt, ReqEnv.mfree, ReqEnv.owned, hold, blockId, map_some,
        toList_some, count_append]
      omega

theorem ReqEnv.Accounts.setRspData {o : Option (HeapBlock (List UInt8))}
    (h : e.Accounts (blockId o ++ held)) : (e.setRspData o).Accounts held := by
  cases o with
  | none => exact h
  | some p =>
    unfold ReqEnv.setRspData
    cases hold : e.rspData with
    | none =>
      refine Blocks.Accounted.of_count h fun id => ?_
      simp only [ReqEnv.mfreeOpt, ReqEnv.owned, hold, blockId, map_some, map_none,
        toList_some, toList_none, count_append, count_nil]
      omega
    | some q =>
      refine Blocks.Accounted.of_count h fun id => ?_
      simp only [ReqEnv.mfreeOpt, ReqEnv.mfree, ReqEnv.owned, hold, blockId, map_some,
        toList_some, count_append]
      omega

end Hands

/-! ### Requests go from calls to effects -/

section Requests

variable {e : ReqEnv} {α : Type} {p : HeapBlock α} {o : Option (HeapBlock α)}

theorem ReqEnv.requests_mfreeOpt : (e.mfreeOpt o).requests = e.requests := by
  cases o <;> rfl

/-- Releasing blocks leaves the messages and what has been done alone. -/
theorem ReqEnv.mfreeOpt_log :
    (e.mfreeOpt o).queue = e.queue ∧ (e.mfreeOpt o).effects = e.effects := by
  cases o with
  | none => exact ⟨rfl, rfl⟩
  | some p => exact ⟨rfl, rfl⟩

theorem ReqEnv.setAdvData_log {o : Option (HeapBlock (List UInt8))} :
    (e.setAdvData o).queue = e.queue ∧ (e.setAdvData o).effects = e.effects := by
  cases o with
  | none => exact ⟨rfl, rfl⟩
  | some p => exact ReqEnv.mfreeOpt_log

theorem ReqEnv.setRspData_log {o : Option (HeapBlock (List UInt8))} :
    (e.setRspData o).queue = e.queue ∧ (e.setRspData o).effects = e.effects := by
  cases o with
  | none => exact ⟨rfl, rfl⟩
  | some p => exact ReqEnv.mfreeOpt_log

theorem ReqEnv.requests_send {msg : AppMsg} :
    (e.send msg).requests = e.requests ++ msg.request.toList := by
  rw [ReqEnv.requests, ReqEnv.requests, ReqEnv.send, filterMap_append, append_assoc]
  congr 2

/-- Handling the first message brings about what is in it. -/
theorem ReqEnv.requests_receive {msg : AppMsg} {queue : List AppMsg} {effects : List Effect}
    {d : ReqEnv} (hq : e.queue = msg :: queue) (hd : d.queue = queue)
    (heffects : d.effects = e.effects ++ effects)
    (hrequest : effects.filterMap Effect.request = msg.request.toList) :
    d.requests = e.requests := by
  rw [ReqEnv.requests, ReqEnv.requests, hd, heffects, hq, filterMap_append, hrequest,
    append_assoc]
  cases h : msg.request with
  | none => rw [filterMap_cons_none h]; rfl
  | some r => rw [filterMap_cons_some h]; rfl

end Requests

/-! ### Every event is right -/

/-- The blocks are accounted for, and these are the requests. -/
structure ReqEnv.Right (e : ReqEnv) (promised : List Request) : Prop where
  accounts : e.Accounts []
  carried : e.requests = promised

/-- A call that has returned `OPRT_OK` asks for `requests`, one with an error for nothing. -/
def Answers (promised requests : List Request) (r : OperateRet × ReqEnv) : Prop :=
  r.2.Right (if r.1 = .ok then promised ++ requests else promised)

theorem Answers.of_ne_ok {e : ReqEnv} {promised requests : List Request} {ret : OperateRet}
    (h : e.Right promised) (hret : ret ≠ .ok) : Answers promised requests (ret, e) := by
  rw [Answers, if_neg hret]
  exact h

namespace ReqEnv.Right

variable {e : ReqEnv} {promised : List Request}

/-- Advertising data are in a message that is taken, or are freed. -/
theorem advRspData {msg : Option (HeapBlock (List UInt8)) → Option (HeapBlock (List UInt8)) → AppMsg}
    {request : Option (List UInt8) → Option (List UInt8) → Request} (h : e.Right promised)
    (hblocks : ∀ a r, (msg a r).blocks = blockId a ++ blockId r)
    (hrequest : ∀ a r, (msg a r).request =
      some (request (a.map HeapBlock.data) (r.map HeapBlock.data)))
    {adv scanRsp : Option (List UInt8)} (mallocAdv mallocRsp : Bool) {sent : Bool}
    (hsent : sent = true ∨ adv = none ∧ scanRsp = none) :
    Answers promised [request adv scanRsp]
      (e.advRspData msg adv scanRsp mallocAdv mallocRsp sent) := by
  unfold ReqEnv.advRspData
  split
  · cases hadv : e.mallocOpt mallocAdv adv with
    | none => exact .of_ne_ok h nofun
    | some r =>
      obtain ⟨advData, e₁⟩ := r
      obtain ⟨h₁, hdata₁, hreq₁⟩ := h.accounts.mallocOpt hadv
      dsimp only
      cases hrsp : e₁.mallocOpt mallocRsp scanRsp with
      | none =>
        refine .of_ne_ok ⟨ReqEnv.Accounts.mfreeOpt (o := advData) ?_, ?_⟩ nofun
        · rw [append_nil]
          exact h₁
        · exact ReqEnv.requests_mfreeOpt.trans (hreq₁.trans h.carried)
      | some r =>
        obtain ⟨h₂, hdata₂, hreq₂⟩ := h₁.mallocOpt hrsp
        cases sent with
        | true =>
          refine ⟨ReqEnv.Accounts.send ?_, ?_⟩
          · rw [hblocks, append_nil]
            exact h₂
          · refine ReqEnv.requests_send.trans ?_
            rw [hrequest, hdata₁, hdata₂, hreq₂, hreq₁, h.carried]
            rfl
        | false =>
          -- there is no block in the message that is not taken
          obtain ⟨rfl, rfl⟩ := hsent.resolve_left nofun
          cases hadv
          cases hrsp
          exact .of_ne_ok h nofun
  · exact .of_ne_ok h nofun

/-- A block of data is in a message that is taken, or is freed. -/
theorem dataCall {msg : HeapBlock (List UInt8) → AppMsg} {failed : OperateRet} {data : List UInt8}
    {requests : List Request} (h : e.Right promised) (hfailed : failed ≠ .ok)
    (hblocks : ∀ p, (msg p).blocks = [p.id]) {malloc sent : Bool}
    (hrequest : e.initialed = true → malloc = true → sent = true →
      ∀ p, p.data = data → (msg p).request.toList = requests) :
    Answers promised requests (e.dataCall msg failed data malloc sent) := by
  unfold ReqEnv.dataCall
  split
  · rename_i hinit
    cases hp : e.malloc malloc data with
    | none => exact .of_ne_ok h nofun
    | some r =>
      obtain ⟨p, e₁⟩ := r
      obtain ⟨h₁, hdata, hreq⟩ := h.accounts.malloc hp
      have hmalloc : malloc = true := by
        by_contra hno
        rw [ReqEnv.malloc, if_neg hno] at hp
        cases hp
      cases sent with
      | true =>
        refine ⟨ReqEnv.Accounts.send ?_, ?_⟩
        · rw [hblocks]
          exact h₁
        · refine ReqEnv.requests_send.trans ?_
          rw [hrequest hinit hmalloc rfl p hdata, hreq, h.carried]
          rfl
      | false => exact .of_ne_ok ⟨ReqEnv.Accounts.mfree h₁, hreq.trans h.carried⟩ hfailed
  · exact .of_ne_ok h nofun

end ReqEnv.Right

namespace ReqEnv.Right

variable {e : ReqEnv} {promised : List Request}

theorem bleNameSet (h : e.Right promised) {name : Option CString} {connHandle : ℕ}
    {malloc sent : Bool} (hcalm : e.initialed = true → malloc = true → sent = true →
      ∀ n ∈ name, n.len < 256 ∨ 512 < n.len % 65536) :
    Answers promised (name.map fun name => Request.name name.bytes).toList
      (e.bleNameSet name connHandle malloc sent) := by
  unfold ReqEnv.bleNameSet
  cases name with
  | none =>
    dsimp only
    split
    · exact .of_ne_ok h nofun
    · exact .of_ne_ok h nofun
  | some name =>
    dsimp only
    split
    · exact .of_ne_ok h nofun
    · rename_i hlen
      refine h.dataCall ?_ (fun _ => ?_) fun hinit hmalloc hsent p hp => ?_
      · exact nofun
      · rfl
      · have hshort : name.len < 256 :=
          (hcalm hinit hmalloc hsent name rfl).resolve_right fun hlong => hlen ⟨hinit, hlong⟩
        have hmod : name.len % 65536 = name.len := Nat.mod_eq_of_lt (by omega)
        have hmod' : name.bytes.length % 256 = name.bytes.length := Nat.mod_eq_of_lt hshort
        have hfield : fieldString p.data = name.bytes := by
          rw [hp, hmod, take_of_length_le, fieldString_append]
          rw [length_append, CString.len]
          exact Nat.le_refl _
        rw [AppMsg.request, hfield, hmod', take_length]
        rfl

theorem gattsValue (h : e.Right promised) {type : ValType} {connHandle charHandle : ℕ}
    {data : List UInt8} {malloc sent : Bool} :
    Answers promised [] (e.gattsValue type connHandle charHandle data malloc sent) := by
  unfold ReqEnv.gattsValue
  refine h.dataCall ?_ (fun _ => ?_) fun _ _ _ _ _ => ?_
  · cases type <;> exact nofun
  · rfl
  · rfl

theorem gattcWrite (h : e.Right promised) {type : WriteType} {connHandle charHandle : ℕ}
    {data : List UInt8} {malloc sent : Bool} :
    Answers promised [] (e.gattcWrite type connHandle charHandle data malloc sent) := by
  unfold ReqEnv.gattcWrite
  refine h.dataCall ?_ (fun _ => ?_) fun _ _ _ _ _ => ?_
  · exact nofun
  · rfl
  · rfl

/-- A service is in a message. -/
theorem serviceAdd (h : e.Right promised) {c : ServiceCall} (hcalm : c.Calm) :
    (e.serviceAdd c).Right (promised ++ [.service c.uuidLen c.uuid128
      ((c.svc.type.decl).map fun decl => srvTable decl c.svc.chars)]) := by
  obtain ⟨htype, htable, hinfo, hsent⟩ := hcalm
  obtain ⟨decl, hdecl⟩ : ∃ decl, c.svc.type.decl = some decl := by
    cases hc : c.svc.type with
    | primary => exact ⟨_, rfl⟩
    | secondary => exact ⟨_, rfl⟩
    | other => exact absurd hc htype
  unfold ReqEnv.serviceAdd
  rw [htable, hinfo, hsent, hdecl]
  have htableBlock : e.malloc true (srvTable decl c.svc.chars) = some (_, _) := rfl
  obtain ⟨h₁, -, hreq₁⟩ := h.accounts.malloc htableBlock
  have hinfoBlock : ReqEnv.malloc { e with allocs := e.allocs + 1 } true
    (attrHandleTuple e.srvAddHandle 1 c.svc.chars) = some (_, _) := rfl
  obtain ⟨h₂, -, hreq₂⟩ := h₁.malloc hinfoBlock
  refine ⟨ReqEnv.Accounts.send ?_, ReqEnv.requests_send.trans ?_⟩
  · exact h₂
  · exact congrArg (· ++ _) (hreq₂.trans (hreq₁.trans h.carried))

theorem services {services : List ServiceCall} (h : e.Right promised)
    (hcalm : ∀ c ∈ services, c.Calm) :
    (services.foldl ReqEnv.serviceAdd e).Right (promised ++
      services.map fun c => .service c.uuidLen c.uuid128
        ((c.svc.type.decl).map fun decl => srvTable decl c.svc.chars)) := by
  induction services generalizing e promised with
  | nil =>
    rw [map_nil, append_nil]
    exact h
  | cons c services ih =>
    have hc := h.serviceAdd (hcalm c mem_cons_self)
    have hrest := ih hc fun c' hc' => hcalm c' (mem_cons_of_mem c hc')
    rw [append_assoc] at hrest
    exact hrest

/-- The block of a service that the stack could not add is freed. -/
theorem svcAddRsp (h : e.Right promised) (svcId : ℕ) (ok : Bool) :
    ReqEnv.Right (if ok then e
      else
        match e.srvAttrList.find? (·.1 = svcId) with
        | none => e
        | some info =>
          { e with srvAttrList := e.srvAttrList.eraseP (·.1 = svcId) }.mfree info.2) promised := by
  split
  · exact h
  · split
    · exact h
    · rename_i info hinfo
      obtain ⟨hid, before, after, hl, hbefore⟩ := List.find?_eq_some_iff_append.mp hinfo
      have herase : e.srvAttrList.eraseP (fun x => decide (x.1 = svcId)) = before ++ after := by
        rw [hl, eraseP_append_right _ fun x hx => by simpa using hbefore x hx,
          eraseP_cons_of_pos (by exact hid)]
      rw [herase]
      refine ⟨Blocks.Accounted.of_count h.accounts fun id => ?_, h.carried⟩
      simp only [ReqEnv.mfree, ReqEnv.owned, hl, map_append, map_cons,
        count_append, count_cons, count_nil]
      omega

/-- The environment takes over what is in the first message. -/
theorem takeOver (h : e.Right promised) {msg : AppMsg} {queue : List AppMsg} {x : Effect}
    {adv rsp : Option (HeapBlock (List UInt8))} (hq : e.queue = msg :: queue)
    (hblocks : msg.blocks = blockId adv ++ blockId rsp) (hrequest : x.request = msg.request) :
    (((ReqEnv.setAdvData { e with queue := queue } adv).setRspData rsp).effect x).Right
      promised := by
  have hheld := h.accounts.receive hq
  rw [hblocks, append_assoc] at hheld
  constructor
  · exact ReqEnv.Accounts.setRspData (ReqEnv.Accounts.setAdvData hheld)
  · have heffects : (((ReqEnv.setAdvData { e with queue := queue } adv).setRspData rsp).effect
        x).effects = e.effects ++ [x] := by
      rw [ReqEnv.effect, ReqEnv.setRspData_log.2, ReqEnv.setAdvData_log.2]
    have hqueue : (((ReqEnv.setAdvData { e with queue := queue } adv).setRspData rsp).effect
        x).queue = queue := by
      rw [ReqEnv.effect, ReqEnv.setRspData_log.1, ReqEnv.setAdvData_log.1]
    refine (ReqEnv.requests_receive hq hqueue heffects ?_).trans h.carried
    rw [← hrequest]
    cases hx : x.request with
    | none => rw [filterMap_cons_none hx]; rfl
    | some r => rw [filterMap_cons_some hx]; rfl

/-- The first message is handled: one case for each kind. -/
theorem handle (h : e.Right promised) {msg : AppMsg} {queue : List AppMsg} {result : Option ℕ}
    (hq : e.queue = msg :: queue) (hcalm : msg.Calm e result) :
    (ReqEnv.msgHdl { e with queue := queue } result msg).Right promised := by
  have hheld := h.accounts.receive hq
  cases msg with
  | advDataSet adv rsp => exact h.takeOver hq rfl rfl
  | advDataUpd adv rsp =>
    have hstarted : e.advStarted = true := hcalm
    rw [ReqEnv.msgHdl, if_pos hstarted]
    exact h.takeOver hq rfl rfl
  | nameSet connHandle name =>
    obtain ⟨d, hd⟩ := isSome_iff_exists.mp hcalm
    have hd' : ReqEnv.findDev { e with queue := queue } connHandle = some d := hd
    rw [ReqEnv.msgHdl, hd']
    exact ⟨ReqEnv.Accounts.mfree hheld, (ReqEnv.requests_receive hq rfl rfl rfl).trans h.carried⟩
  | addSrvs uuidLen uuid128 startHandle totalHandles table info =>
    obtain ⟨srvId, rfl⟩ := isSome_iff_exists.mp hcalm
    refine ⟨ReqEnv.Accounts.mfree ?_, (ReqEnv.requests_receive hq rfl rfl rfl).trans h.carried⟩
    refine Blocks.Accounted.of_count hheld fun id => ?_
    simp only [ReqEnv.owned, AppMsg.blocks, ReqEnv.effect, map_append, map_cons,
      map_nil, count_append, count_cons, count_nil]
    omega
  | val type connHandle charHandle data =>
    obtain ⟨d, hd⟩ := isSome_iff_exists.mp hcalm
    have hd' : ReqEnv.findDev { e with queue := queue } connHandle = some d := hd
    rw [ReqEnv.msgHdl, hd']
    cases type with
    | setVal =>
      exact ⟨ReqEnv.Accounts.mfree hheld, (ReqEnv.requests_receive hq rfl rfl rfl).trans h.carried⟩
    | valNotify =>
      exact ⟨ReqEnv.Accounts.mfree hheld, (ReqEnv.requests_receive hq rfl rfl rfl).trans h.carried⟩
    | valInd =>
      exact ⟨ReqEnv.Accounts.mfree hheld, (ReqEnv.requests_receive hq rfl rfl rfl).trans h.carried⟩
  | write type connHandle charHandle value => exact hcalm.elim

end ReqEnv.Right

namespace RequestsRight

variable {s : ReqRun}

theorem right (hs : RequestsRight s) : s.env.Right s.promised where
  accounts := by
    rw [ReqEnv.Accounts, append_nil]
    exact hs.blocks
  carried := hs.carried

theorem of_right {e : ReqEnv} {promised : List Request} (h : e.Right promised) :
    RequestsRight ⟨e, promised⟩ where
  blocks := by
    have haccounts := h.accounts
    rw [ReqEnv.Accounts, append_nil] at haccounts
    exact haccounts
  carried := h.carried

theorem of_answers {promised requests : List Request} {r : OperateRet × ReqEnv}
    (h : Answers promised requests r) :
    RequestsRight ⟨r.2, if some r.1 = some .ok then promised ++ requests else promised⟩ := by
  simp only [Option.some.injEq]
  exact of_right h

/-- One event. -/
theorem step (hs : RequestsRight s) {i : ReqEvent} {t : ReqRun} (hcalm : ReqEvent.Calm s i)
    (hi : reqStep i s = some t) : RequestsRight t := by
  have hright := hs.right
  rw [reqStep, map_eq_some_iff] at hi
  obtain ⟨r, hr, rfl⟩ := hi
  cases i with
  | advRspDataSet adv scanRsp mallocAdv mallocRsp sent =>
    cases hr
    exact of_answers (hright.advRspData (fun _ _ => rfl) (fun _ _ => rfl) _ _ hcalm)
  | advRspDataUpdate adv scanRsp mallocAdv mallocRsp sent =>
    cases hr
    exact of_answers (hright.advRspData (fun _ _ => rfl) (fun _ _ => rfl) _ _ hcalm)
  | bleNameSet name connHandle malloc sent =>
    cases hr
    exact of_answers (hright.bleNameSet hcalm)
  | gattsServiceAdd services =>
    cases hr
    refine of_answers ?_
    unfold ReqEnv.gattsServiceAdd
    split
    · rename_i hinit
      exact hright.services (hcalm hinit)
    · exact .of_ne_ok hright nofun
  | gattsValue type connHandle charHandle data malloc sent =>
    cases hr
    exact of_answers hright.gattsValue
  | gattcWrite type connHandle charHandle data malloc sent =>
    cases hr
    exact of_answers hright.gattcWrite
  | handle result =>
    cases hq : s.env.queue with
    | nil =>
      simp only [ReqEvent.apply, hq] at hr
      cases hr
    | cons msg queue =>
      simp only [ReqEvent.apply, hq] at hr
      cases hr
      exact of_right (hright.handle hq (hcalm msg (by rw [hq]; rfl)))
  | connected connHandle conidx =>
    cases hr
    cases hd : s.env.findDev connHandle with
    | none => exact ⟨hs.blocks, hs.carried⟩
    | some d => exact ⟨hs.blocks, hs.carried⟩
  | disconnected connHandle =>
    cases hr
    exact ⟨hs.blocks, hs.carried⟩
  | advStateChg started =>
    cases hr
    exact ⟨hs.blocks, hs.carried⟩
  | svcAddRsp svcId ok =>
    cases hr
    exact of_right (hright.svcAddRsp svcId ok)
  | enableCmpl ok =>
    cases hr
    exact ⟨hs.blocks, hs.carried⟩

end RequestsRight

instance (e : ReqEnv) (result : Option ℕ) : (msg : AppMsg) → Decidable (msg.Calm e result)
  | .advDataSet _ _ => .isTrue trivial
  | .advDataUpd _ _ => inferInstanceAs (Decidable (e.advStarted = true))
  | .nameSet connHandle _ => inferInstanceAs (Decidable ((e.findDev connHandle).isSome = true))
  | .addSrvs _ _ _ _ _ _ => inferInstanceAs (Decidable (result.isSome = true))
  | .val _ connHandle _ _ => inferInstanceAs (Decidable ((e.findDev connHandle).isSome = true))
  | .write _ _ _ _ => .isFalse id

instance (c : ServiceCall) : Decidable c.Calm :=
  inferInstanceAs (Decidable
    (c.svc.type ≠ .other ∧ c.mallocTable = true ∧ c.mallocInfo = true ∧ c.sent = true))

instance (s : ReqRun) : (i : ReqEvent) → Decidable (i.Calm s)
  | .advRspDataSet adv scanRsp _ _ sent =>
    inferInstanceAs (Decidable (sent = true ∨ adv = none ∧ scanRsp = none))
  | .advRspDataUpdate adv scanRsp _ _ sent =>
    inferInstanceAs (Decidable (sent = true ∨ adv = none ∧ scanRsp = none))
  | .bleNameSet name _ malloc sent =>
    inferInstanceAs (Decidable (s.env.initialed = true → malloc = true → sent = true →
      ∀ n ∈ name, n.len < 256 ∨ 512 < n.len % 65536))
  | .gattsServiceAdd services =>
    inferInstanceAs (Decidable (s.env.initialed = true → ∀ c ∈ services, c.Calm))
  | .handle result =>
    inferInstanceAs (Decidable (∀ msg ∈ s.env.queue.head?, msg.Calm s.env result))
  | .gattsValue _ _ _ _ _ _ => .isTrue trivial
  | .gattcWrite _ _ _ _ _ _ => .isTrue trivial
  | .connected _ _ => .isTrue trivial
  | .disconnected _ => .isTrue trivial
  | .advStateChg _ => .isTrue trivial
  | .svcAddRsp _ _ => .isTrue trivial
  | .enableCmpl _ => .isTrue trivial

theorem reqInit_right : RequestsRight reqInit where
  blocks := Blocks.accounted_zero
  carried := rfl

/-- **In a run in which messages with advertising data are taken, services can be added, and messages
are handled while the link, the advertising or the stack they need is there, and none is a client's
write, every block is released once and every request carried out.** -/
theorem requests_calm {s : ReqRun} (h : Machine.Reach reqStep ReqEvent.Calm reqInit s) :
    RequestsRight s :=
  h.invariant reqInit_right fun hs hcalm hi => hs.step hcalm hi

/-- A link comes up; a name, a service, advertising data twice and a value are asked for and the
messages handled, a notification is refused, and the service turns out not to be there. -/
def requestsRun : List ReqEvent :=
  [.connected 0 0, .bleNameSet (some ⟨[0x74, 0x75], by simp⟩) 0 true true,
    .gattsServiceAdd [⟨.uuid16, [0xF1], oneCharService 0xFFF1, true, true, true⟩],
    .advRspDataSet (some [1, 2, 3]) (some [4]) true true true,
    .gattsValue .setVal 0 0x102 [5, 6] true true, .handle none, .handle (some 1), .handle none,
    .handle none, .advStateChg true, .advRspDataUpdate (some [7]) none true true true, .handle none,
    .gattsValue .valNotify 0 0x102 [8] true false, .svcAddRsp 1 false, .disconnected 0]

theorem requests_calm_requestsRun :
    ∃ s, Machine.run reqStep requestsRun reqInit = some s ∧ s.env.allocs = 8 ∧
      s.promised.length = 4 ∧ s.env.queue.length = 0 ∧ RequestsRight s := by
  have hrun : Machine.run reqStep requestsRun reqInit = some _ := rfl
  have hmeets : Machine.Meets reqStep ReqEvent.Calm requestsRun reqInit := by decide +kernel
  exact ⟨_, hrun, by decide +kernel, by decide +kernel, by decide +kernel,
    requests_calm (.of_run_of_meets hrun hmeets)⟩

/-- **A name that is set while there is no connection gets lost**, and its block with it. -/
theorem not_requests_nameSet :
    ∃ s, Machine.Reach reqStep (fun _ _ => True) reqInit s ∧ ¬ RequestsRight s := by
  have hrun : Machine.run reqStep [.bleNameSet (some ⟨[0x74], by simp⟩) 0 true true, .handle none]
    reqInit = some _ := rfl
  refine ⟨_, .of_run hrun, fun h => ?_⟩
  have hblock := h.blocks 0
  revert hblock
  decide +kernel

end Gd32.Ble
