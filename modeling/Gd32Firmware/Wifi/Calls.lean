import Gd32Firmware.Lib.Machine
import Gd32Firmware.Wifi.StateMachines

/-!
# The calls of the application and the management task

An application task issues the blocking calls of `wifi_management.c`, one at a time, beside the
management task. What a call has still to do is a piece of code (`CallCode`) of which
the task executes one operation at a time: a send, one turn of the flush loop, one turn of the
fetch loop. The management task handles a message in one go, except for its answers, which are
posted one after the other (`World.posting`); everything else may happen in between.

Calls are numbered in the order in which they start, and the command of a call carries its
number. The interface is open (`wifi_work_status`), and not in concurrent mode.
-/

namespace Gd32.Wifi

/-! ### Code -/

/-- What a call has still to do. -/
inductive CallCode where
  /-- `return`. -/
  | ret (value : ℤ)
  /-- `sys_malloc` or `sys_zalloc`. -/
  | malloc (found failed : CallCode)
  /-- A look at `wvif_type`. -/
  | ifMode (type : WvifType) (yes no : CallCode)
  /-- `wifi_sm_data[vif_idx].scan_blocked = blocked`. -/
  | scanBlock (blocked : Bool) (next : CallCode)
  /-- `sta->last_reason = reason`. -/
  | lastReason (reason : ℕ) (next : CallCode)
  /-- `mgmt_wait_queue_flush`, in the call `n`. -/
  | flush (n : ℕ) (next : CallCode)
  /-- `eloop_message_send`. -/
  | send (msg : Message) (sent full : CallCode)
  /-- `mgmt_wait_queue_fetch`, in the call `n`. -/
  | fetch (n : ℕ) (evt : WaitKind) (next : ℕ → CallCode)
  | enter (next : ℕ → CallCode)

/-- What `mgmt_wait_queue_fetch` returns upon a timeout. -/
def fetchTimeout : ℕ := 0xFFFF

def wifiSsidMaxLen : ℕ := 32

def wpasMinPassphraseLen : ℕ := 8

def wpasMaxPassphraseLen : ℕ := 63

def wpasWep40AsciiLen : ℕ := 5

/-- Whether the name of the access point is refused. -/
def badSsid (ssid : Option (List ℕ)) : Bool :=
  match ssid with
  | none => true
  | some ssid => wifiSsidMaxLen < ssid.length

/-- Whether the password is refused; one with no characters is none. -/
def badPassword (wep : Bool) (password : Option (List ℕ)) : Bool :=
  match password with
  | none => false
  | some password =>
    password.length ≠ 0 ∧ (wpasMaxPassphraseLen < password.length ∨
      password.length < wpasMinPassphraseLen ∧ ¬(wep ∧ password.length = wpasWep40AsciiLen))

/-- The message that switches the mode. -/
def switchMessage (type : WvifType) : Message := ⟨.switchModeCmd, type.number, none, none⟩

/-- The message `SCAN_CMD`. -/
def scanMessage (n : ℕ) (ssid : List ℕ) : Message :=
  ⟨.scanCmd, 0, if ssid.length ≠ 0 then some (.ssid ssid) else none, some n⟩

/-- `wifi_management_scan`, from the flush on. -/
def scanCode (n : ℕ) (blocked : Bool) (ssid : List ℕ) : CallCode :=
  .flush n <| .scanBlock blocked <| .send (scanMessage n ssid)
    (if blocked then .fetch n .scanDone fun reason => .ret reason else .ret 0)
    (.scanBlock false <| .ret (-2))

/-- `wifi_management_scan`; no name is the empty one. -/
def wifiManagementScan (blocked : Bool) (ssid : List ℕ) (n : ℕ) : CallCode :=
  if ssid.length ≠ 0 then .malloc (scanCode n blocked ssid) (.ret (-1)) else scanCode n blocked ssid

/-- `wifi_management_disconnect`, with what follows upon its result. -/
def disconnectCode (n : ℕ) (next : ℤ → CallCode) : CallCode :=
  .ifMode .sta
    (.flush n <| .send ⟨.disconnectCmd, 0, none, some n⟩
      (.fetch n .disconnDone fun ret => .lastReason 0 <| next ret)
      (next (-1)))
    (next 0)

def wifiManagementDisconnect (n : ℕ) : CallCode := disconnectCode n .ret

/-- The configuration of a connect. -/
def connectCfg (ssid : List ℕ) (blocked : Bool) : StaCfg :=
  { ssid := ssid, channel := 0xFF, bssid := 0, connWithBssid := false, connBlocked := blocked }

/-- The end of a blocked `wifi_management_connect`. -/
def connectEnd (reason : ℕ) : CallCode :=
  .lastReason reason <|
    if reason = fetchTimeout then .enter fun n => disconnectCode n fun _ => .ret reason
    else .ret reason

def wifiManagementConnect (ssid password : Option (List ℕ)) (blocked : Bool) (n : ℕ) : CallCode :=
  if badSsid ssid then .ret (-1)
  else if badPassword true password then .ret (-2)
  else
    .send (switchMessage .sta)
      (.malloc (.flush n <| .send
          ⟨.connectCmd, 0, some (.staCfg (connectCfg (ssid.getD []) blocked)), some n⟩
          (if blocked then .fetch n .connDone connectEnd else .ret 0)
          (.ret (-5)))
        (.ret (-4)))
      (.ret (-3))

/-- `wifi_management_ap_start`. The result of `wifi_management_ap_stop` is not read. -/
def wifiManagementApStart (ssid passwd : Option (List ℕ)) (channel n : ℕ) : CallCode :=
  if badSsid ssid then .ret (-1)
  else if badPassword false passwd then .ret (-2)
  else if 14 < channel ∨ channel < 1 then .ret (-3)
  else
    let start :=
      CallCode.send (switchMessage .ap)
        (.malloc (.flush n <| .send ⟨.startApCmd, 0, some .other, some n⟩
            (.fetch n .apStartDone fun reason => .ret (if reason ≠ 0 then -9 else 0))
            (.ret (-8)))
          (.ret (-7)))
        (.ret (-6))
    .send (switchMessage .sta) start start

/-- `wifi_management_monitor_start`, with the monitor stopped. The flush comes after the send. -/
def monitorCode (n : ℕ) : CallCode :=
  .send (switchMessage .monitor)
    (.malloc (.send ⟨.monitorStartCmd, WvifType.monitor.number, some .other, some n⟩
        (.flush n <| .fetch n .monitorStartDone fun reason => .ret (if reason ≠ 0 then -6 else 0))
        (.ret (-5)))
      (.ret (-4)))
    (.ret (-3))

def wifiManagementMonitorStart (n : ℕ) : CallCode :=
  .ifMode .monitor (.send (switchMessage .sta) (monitorCode n) (.ret (-1))) (monitorCode n)

/-- `wifi_management_sta_start` and `wifi_management_ap_stop`. -/
def wifiManagementStaStart : CallCode := .send (switchMessage .sta) (.ret 0) (.ret (-1))

def wifiManagementStaAutoConnect : CallCode :=
  .send (switchMessage .sta)
    (.send ⟨.autoConnectCmd, 0, none, none⟩ (.ret 0) (.ret (-1))) (.ret (-1))

/-- The calls. -/
inductive Call where
  | scan (blocked : Bool) (ssid : List ℕ)
  | connect (ssid password : Option (List ℕ)) (blocked : Bool)
  | disconnect
  | apStart (ssid passwd : Option (List ℕ)) (channel : ℕ)
  | monitorStart
  | staStart
  | staAutoConnect
  deriving DecidableEq, Repr

/-- The code of a call. -/
def Call.code (n : ℕ) : Call → CallCode
  | scan blocked ssid => wifiManagementScan blocked ssid n
  | connect ssid password blocked => wifiManagementConnect ssid password blocked n
  | disconnect => wifiManagementDisconnect n
  | apStart ssid passwd channel => wifiManagementApStart ssid passwd channel n
  | monitorStart => wifiManagementMonitorStart n
  | staStart => wifiManagementStaStart
  | staAutoConnect => wifiManagementStaAutoConnect

/-! ### The two tasks -/

/-- A call that has not returned. -/
structure AppCall where
  call : Call
  number : ℕ
  code : CallCode

/-- The two tasks. -/
structure World where
  m : Mgmt
  /-- The answers the management task has still to post for the message it handles. -/
  posting : List WaitEvt
  app : Option AppCall
  calls : ℕ

/-- What can happen. -/
inductive WorldStep where
  /-- The driver, or a call without an answer, sends a message. -/
  | send (msg : Message)
  /-- The management task takes a message and handles it. -/
  | dispatch (e : MgmtEnv)
  | post
  | expire (t : MgmtTimer) (e : MgmtEnv)
  | start (call : Call)
  /-- It executes the next operation. With `b`, an allocation finds memory, and a fetch that
  finds nothing times out. -/
  | app (b : Bool)

/-- The interface after a message, with the answers apart. -/
def handleMessage (e : MgmtEnv) (msg : Message) (rest : List Message) (m : Mgmt) :
    Mgmt × List WaitEvt :=
  let u := wifiMgmtCbRunStateMachine e msg { m with queue := rest, wait := [] }
  ({ u with wait := m.wait }, u.wait)

/-- The call `a` goes on with `code`. -/
def World.goOn (s : World) (a : AppCall) (code : CallCode) : World :=
  { s with app := some { a with code := code } }

/-- The next operation of the call `a`. -/
def appStep (b : Bool) (a : AppCall) (s : World) : Option World :=
  match a.code with
  | .ret _ => some { s with app := none }
  | .malloc found failed => some (s.goOn a (if b then found else failed))
  | .ifMode type yes no => some (s.goOn a (if s.m.wvifType = type then yes else no))
  | .scanBlock blocked next =>
    some ({ s with m := { s.m with sm := { s.m.sm with scanBlocked := blocked } } }.goOn a next)
  | .lastReason reason next => some ({ s with m := { s.m with lastReason := reason } }.goOn a next)
  | .flush _ next =>
    match s.m.wait with
    | [] => some (s.goOn a next)
    | _ :: wait => some { s with m := { s.m with wait := wait } }
  | .send msg sent full =>
    some ({ s with m := (eloopMessageSend msg s.m).2 }.goOn a
      (if (eloopMessageSend msg s.m).1 = 0 then sent else full))
  | .fetch _ evt next =>
    match s.m.wait with
    | [] => if b then some (s.goOn a (next fetchTimeout)) else none
    | w :: wait =>
      if w.evt = evt then some ({ s with m := { s.m with wait := wait } }.goOn a (next w.reason))
      else some { s with m := { s.m with wait := wait } }
  | .enter next => some ({ s with calls := s.calls + 1 }.goOn a (next s.calls))

/-- One step. -/
def worldStep : WorldStep → World → Option World
  | .send msg, s => some { s with m := (eloopMessageSend { msg with call := none } s.m).2 }
  | .dispatch e, s =>
    match s.posting, s.m.queue with
    | [], msg :: rest =>
      some { s with
        m := (handleMessage e msg rest s.m).1, posting := (handleMessage e msg rest s.m).2 }
    | _, _ => none
  | .post, s =>
    match s.posting with
    | [] => none
    | w :: posting => some { s with m := { s.m with wait := pushWait s.m.wait w }, posting := posting }
  | .expire t e, s =>
    if s.posting = [] ∧ t ∈ s.m.timeout then
      some { s with m := mgmtTimeout e t { s.m with timeout := s.m.timeout.erase t } }
    else none
  | .start call, s =>
    match s.app with
    | none => some { s with app := some ⟨call, s.calls, call.code s.calls⟩, calls := s.calls + 1 }
    | some _ => none
  | .app b, s => s.app.bind fun a => appStep b a s

/-- Both tasks after `wifi_management_init`. -/
def worldInit (autoConn : Bool) : World := ⟨wifiManagementInit autoConn, [], none, 0⟩

end Gd32.Wifi
