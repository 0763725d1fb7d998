import Gd32Firmware.Wifi.StateMachines
import Mathlib.Data.List.Basic

/-!
# What a blocked caller sees of the management task

A caller that sleeps on `mgmt_wait_queue` depends on little: the two flags that say somebody is
waiting, the state of the machine, and what is posted. `callers` keeps these, and says
of every function of the machines what it does to them. Of the message queue all that is needed
here is that a step only adds to it (`queue_runStateMachine`).
-/

namespace Gd32.Wifi

/-- What the callers see of the interface. -/
@[ext] structure Callers where
  wvifType : WvifType
  state : ConnState
  init : Bool
  /-- `conn_blocked`. -/
  conn : Bool
  /-- `scan_blocked`. -/
  scan : Bool
  /-- `mgmt_wait_queue`. -/
  wait : List WaitEvt
  serving : Option ℕ
  /-- The last call that has been taken from the queue. -/
  served : Option ℕ
  /-- The last call taken when `CONNECTED` was last entered. -/
  connectedFor : Option ℕ

/-- What the callers see of `m`. -/
def callers (m : Mgmt) : Callers :=
  { wvifType := m.wvifType
    state := m.sm.state
    init := m.sm.init
    conn := m.cfg.connBlocked
    scan := m.sm.scanBlocked
    wait := m.wait
    serving := m.serving
    served := m.served
    connectedFor := m.connectedFor }

/-- The wait queue with one more answer. -/
def Callers.post (k : WaitKind) (r : ℕ) (c : Callers) : Callers :=
  { c with wait := pushWait c.wait ⟨k, r, c.serving, c.served⟩ }

/-- The answer to a blocked connect, if there is one. -/
def Callers.postConn (r : ℕ) (c : Callers) : Callers :=
  if c.conn then { c with conn := false }.post .connDone r else c

/-- The answer to a blocked scan, if there is one. -/
def Callers.postScan (r : ℕ) (c : Callers) : Callers :=
  if c.scan then { c with scan := false }.post .scanDone r else c

/-- The state `s`. -/
def Callers.enter (s : ConnState) (c : Callers) : Callers := { c with state := s }

/-- `IDLE`, with the answer every entry to it posts. -/
def Callers.toIdle (c : Callers) : Callers := (c.enter .idle).post .disconnDone 0

/-! ### Functions of the machines -/

section Functions

variable (e : MgmtEnv) (m : Mgmt)

@[simp] theorem callers_mgmtPostConnDone (r : ℕ) :
    callers (mgmtPostConnDone r m) = (callers m).postConn r := by
  rw [mgmtPostConnDone, Callers.postConn]
  rcases hc : m.cfg.connBlocked
  · rw [if_pos rfl, if_neg (by simp [callers, hc])]
  · rw [if_neg (by simp), if_pos (by simp [callers, hc])]
    rfl

@[simp] theorem callers_mgmtPostScanDone (r : ℕ) :
    callers (mgmtPostScanDone r m) = (callers m).postScan r := by
  rw [mgmtPostScanDone, Callers.postScan]
  rcases hc : m.sm.scanBlocked
  · rw [if_pos rfl, if_neg (by simp [callers, hc])]
  · rw [if_neg (by simp), if_pos (by simp [callers, hc])]
    rfl

@[simp] theorem callers_eloopMessageSend (msg : Message) :
    callers (eloopMessageSend msg m).2 = callers m := rfl

@[simp] theorem callers_driverRequest (req : DriverReq) :
    callers (driverRequest req m) = callers m := rfl

@[simp] theorem callers_mgmtConnectRetryParamSet (b : Bool) :
    callers (mgmtConnectRetryParamSet b m) = callers m := by
  cases b <;> rfl

@[simp] theorem callers_mgmtRegisterDelayedConnectRetry :
    callers (mgmtRegisterDelayedConnectRetry e m) = callers m := by
  rw [mgmtRegisterDelayedConnectRetry]
  split <;> rfl

@[simp] theorem callers_mgmtPreroamRollback : callers (mgmtPreroamRollback m) = callers m := by
  rw [mgmtPreroamRollback]
  split <;> rfl

@[simp] theorem callers_mgmtConnectedScanDone :
    callers (mgmtConnectedScanDone e m) = callers m := by
  rw [mgmtConnectedScanDone]
  split
  · rfl
  · split
    · rfl
    · split
      · split
        · split <;> rfl
        · rfl
      · split <;> rfl

@[simp] theorem callers_wifiNetlinkConnectReq :
    callers (wifiNetlinkConnectReq e m).2 = callers m := by
  rw [wifiNetlinkConnectReq]
  split
  · rfl
  · rcases e.connectCompleted <;> rcases m.cfg.connWithBssid <;> rfl

@[simp] theorem callers_wifiNetlinkJoinedApLoad :
    callers (wifiNetlinkJoinedApLoad e m).2 = callers m := by
  rw [wifiNetlinkJoinedApLoad]
  split <;> rfl

@[simp] theorem callers_enterIdle : callers (enterIdle m) = (callers m).toIdle := rfl

@[simp] theorem callers_enterScan : callers (enterScan e m) = (callers m).enter .scan := by
  simp only [enterScan]
  split
  · rfl
  · split <;> rfl

@[simp] theorem callers_enterConnect : callers (enterConnect e m) = (callers m).enter .connect := by
  rw [enterConnect]
  split
  · rw [callers_wifiNetlinkConnectReq]
    rfl
  · rw [callers_eloopMessageSend, callers_wifiNetlinkConnectReq]
    rfl

@[simp] theorem callers_connectedAnswer :
    callers (connectedAnswer m) = (callers m).postConn macStSuccessful := by
  rw [connectedAnswer]
  split
  · rename_i h
    rw [Callers.postConn, if_neg (by simp [callers, h])]
    rfl
  · exact callers_mgmtPostConnDone m _

/-- `CONNECTED` answers a blocked connect with success. -/
@[simp] theorem callers_enterConnected :
    callers (enterConnected m) =
      { (callers m).enter .connected with connectedFor := m.served }.postConn macStSuccessful :=
  callers_connectedAnswer _

@[simp] theorem callers_mgmtScanCmd :
    callers (mgmtScanCmd e m) =
      if e.scanSet = 0 then callers m else (callers m).postScan scanStartFail := by
  rw [mgmtScanCmd]
  split
  · rfl
  · rw [callers_mgmtPostScanDone, callers_driverRequest]

@[simp] theorem callers_allRetriesFailed :
    callers (allRetriesFailed m) = ((callers m).postConn m.sm.reason).toIdle := by
  simp [allRetriesFailed]

@[simp] theorem callers_linkFailed :
    callers (linkFailed e m) =
      if 0 < m.sm.retryCount then (callers m).enter .scan
      else ((callers m).postConn m.sm.reason).toIdle := by
  simp only [linkFailed]
  split
  · rw [callers_mgmtRegisterDelayedConnectRetry, callers_enterScan]
    rfl
  · rw [callers_allRetriesFailed]
    rfl

@[simp] theorem callers_disconnectNotify : callers (disconnectNotify m) = callers m := by
  rw [disconnectNotify]
  split <;> rfl

theorem retryCount_roaming : (mgmtConnectRetryParamSet true m).sm.retryCount = 99 := rfl

@[simp] theorem callers_connectedDisconnect :
    callers (connectedDisconnect e m) =
      if reconnects m.sm.reason then (callers m).enter .scan else (callers m).toIdle := by
  have hr : (disconnectNotify { m with lastReason := m.sm.reason }).sm.reason = m.sm.reason := by
    rw [disconnectNotify]
    split <;> rfl
  simp only [connectedDisconnect]
  rw [hr, retryCount_roaming]
  by_cases h : reconnects m.sm.reason
  · rw [if_pos h, if_pos h, if_pos (show 0 < 99 by decide), callers_enterScan,
      callers_mgmtConnectRetryParamSet, callers_disconnectNotify]
    rfl
  · rw [if_neg h, if_neg h, callers_enterIdle, callers_disconnectNotify]
    rfl

end Functions

/-! ### The table of a step -/

/-- What a message does to what the callers see. -/
inductive Effect where
  | nothing
  | enter (s : ConnState)
  /-- It goes to `IDLE`. -/
  | idle
  | giveUp
  /-- The request is refused: a link is ongoing. -/
  | refuse
  | connected
  | scanAnswer (reason : ℕ)
  /-- A connect is accepted, from `CONNECTED` by way of `IDLE`. -/
  | accept (viaIdle : Bool)
  | disconnAnswer
  | restart
  /-- The access point or the monitor is set up anew. -/
  | reset
  /-- A start of the access point or the monitor is answered. -/
  | start (k : WaitKind) (s : ConnState) (reason : ℕ)
  deriving DecidableEq

/-- `conn_blocked` after the configuration of a `CONNECT_CMD` has been taken. -/
def Callers.takeCfg (param : Option MgmtParam) (c : Callers) : Callers :=
  match param with
  | some (.staCfg cfg) => { c with conn := cfg.connBlocked }
  | _ => c

/-- What an effect does, upon a message with this reason and parameter. -/
def Effect.apply (reason : ℕ) (param : Option MgmtParam) (c : Callers) : Effect → Callers
  | nothing => c
  | enter s => c.enter s
  | idle => c.toIdle
  | giveUp => (c.postConn reason).toIdle
  | refuse => { c with conn := false }.post .connDone macStFailure
  | connected => { c.enter .connected with connectedFor := c.served }.postConn macStSuccessful
  | scanAnswer r => c.postScan r
  | accept false => (c.takeCfg param).enter .scan
  | accept true => (c.takeCfg param).toIdle.enter .scan
  | disconnAnswer => c.post .disconnDone 0
  | restart => { c with scan := false, init := true }.toIdle
  | reset => { c with scan := false, init := true }.enter .init
  | start k s r => (c.enter s).post k r

section Table

variable (e : MgmtEnv) (m : Mgmt)

/-- The branches upon `SCAN_CMD` that start a scan. -/
def scanCmdEffect : Effect := if e.scanSet = 0 then .nothing else .scanAnswer scanStartFail

/-- The end of a link. -/
def linkEffect : Effect := if 0 < m.sm.retryCount then .enter .scan else .giveUp

/-- The row of `IDLE`. -/
def idleEffect : Effect :=
  match m.sm.event with
  | .scanCmd => scanCmdEffect e
  | .connectCmd => .accept false
  | .autoConnectCmd => if e.joinedAp.isSome then .enter .scan else .idle
  | .scanDone => .scanAnswer scanSuccess
  | .disconnectCmd => .disconnAnswer
  | _ => .nothing

/-- The row of `SCAN`. -/
def scanEffect : Effect :=
  match m.sm.event with
  | .scanCmd | .connectCmd => .refuse
  | .disconnectCmd | .connectFail => .idle
  | .scanDone => .enter .connect
  | .scanFail => if 0 < m.sm.retryCount then .nothing else .giveUp
  | _ => .nothing

/-- The row of `CONNECT`. -/
def connectEffect : Effect :=
  match m.sm.event with
  | .scanCmd | .connectCmd => .refuse
  | .disconnectCmd => .idle
  | .assocSuccess => .enter .handshake
  | .connectFail | .disconnect => linkEffect m
  | _ => .nothing

/-- The row of `HANDSHAKE`. -/
def handshakeEffect : Effect :=
  match m.sm.event with
  | .scanCmd | .connectCmd => .refuse
  | .disconnectCmd => .idle
  | .connectFail => linkEffect m
  | .disconnect => linkEffect m
  | .dhcpStart => .enter .dhcp
  | _ => .nothing

/-- The row of `DHCP`. -/
def dhcpEffect : Effect :=
  match m.sm.event with
  | .scanCmd | .connectCmd => .refuse
  | .disconnectCmd => .idle
  | .dhcpSuccess => .connected
  | .dhcpFail | .connectFail => linkEffect m
  | .disconnect => linkEffect m
  | _ => .nothing

/-- The row of `CONNECTED`. -/
def connectedEffect : Effect :=
  match m.sm.event with
  | .scanCmd => scanCmdEffect e
  | .connectCmd => .accept true
  | .disconnectCmd => .idle
  | .scanDone => .scanAnswer scanSuccess
  | .scanFail => .scanAnswer scanFailed
  | .disconnect => if reconnects m.sm.reason then .enter .scan else .idle
  | _ => .nothing

/-- The table of the station machine. -/
def stationEffect : Effect :=
  if m.sm.init = false ∨ m.sm.event = .init then .restart
  else
    match m.sm.state with
    | .idle => idleEffect e m
    | .wps => .nothing
    | .scan => scanEffect m
    | .connect => connectEffect m
    | .handshake => handshakeEffect m
    | .dhcp => dhcpEffect m
    | .connected => connectedEffect e m

theorem callers_takeStaCfg : callers (takeStaCfg m) = (callers m).takeCfg m.sm.param := by
  rcases hp : m.sm.param with _ | cfg | ssid | _
  · simp only [takeStaCfg, Callers.takeCfg, hp]
  · simp only [takeStaCfg, Callers.takeCfg, hp]
    rfl
  · simp only [takeStaCfg, Callers.takeCfg, hp]
  · simp only [takeStaCfg, Callers.takeCfg, hp]

theorem wifiNetlinkJoinedApLoad_fst :
    (wifiNetlinkJoinedApLoad e m).1 = e.joinedAp.isSome := by
  rw [wifiNetlinkJoinedApLoad]
  split <;> rename_i h <;> rw [h] <;> rfl

theorem callers_mgmtScanCmd_effect :
    callers (mgmtScanCmd e m) = (scanCmdEffect e).apply m.sm.reason m.sm.param (callers m) := by
  rw [callers_mgmtScanCmd, scanCmdEffect]
  split <;> rfl

theorem callers_linkFailed_effect :
    callers (linkFailed e m) = (linkEffect m).apply m.sm.reason m.sm.param (callers m) := by
  rw [callers_linkFailed, linkEffect]
  split <;> rfl

/-- **What the callers see of a step of the station machine is in the table.** -/
theorem callers_maintainConnectionStep :
    callers (maintainConnectionStep e m) =
      (stationEffect e m).apply m.sm.reason m.sm.param (callers m) := by
  have hscan := callers_mgmtScanCmd_effect e m
  have hlink := callers_linkFailed_effect e m
  have hlink' : callers (linkFailed e (driverRequest .disconnectReq m)) =
      (linkEffect m).apply m.sm.reason m.sm.param (callers m) :=
    callers_linkFailed_effect e (driverRequest .disconnectReq m)
  rw [maintainConnectionStep, stationEffect]
  by_cases hi : m.sm.init = false ∨ m.sm.event = .init
  · rw [if_pos hi, if_pos hi]
    rfl
  rw [if_neg hi, if_neg hi]
  rcases hs : m.sm.state with _ | _ | _ | _ | _ | _ | _
  · simp only [stepIdle, idleEffect]
    rcases m.sm.event <;> simp only [] <;> first
      | rfl
      | exact hscan
      | simp only [callers_enterScan, callers_mgmtConnectRetryParamSet, callers_takeStaCfg]; rfl
      | (rw [wifiNetlinkJoinedApLoad_fst]
         split
         · rw [callers_enterScan, callers_mgmtConnectRetryParamSet,
             callers_wifiNetlinkJoinedApLoad]; rfl
         · rw [callers_enterIdle, callers_wifiNetlinkJoinedApLoad]; rfl)
      | exact callers_mgmtPostScanDone m _
  · rfl
  · simp only [stepScan, scanEffect]
    rcases m.sm.event <;> simp only [] <;> first
      | rfl
      | exact callers_mgmtLinkIsOngoing m
      | exact callers_enterConnect e m
      | (split
         · exact callers_mgmtRegisterDelayedConnectRetry e m
         · exact callers_allRetriesFailed m)
  · simp only [stepConnect, connectEffect]
    rcases m.sm.event <;> simp only [] <;> first
      | rfl
      | exact callers_mgmtLinkIsOngoing m
      | exact hlink
  · simp only [stepHandshake, handshakeEffect]
    rcases m.sm.event <;> simp only [] <;> first
      | rfl
      | exact callers_mgmtLinkIsOngoing m
      | exact hlink
      | exact hlink'
  · simp only [stepDhcp, dhcpEffect]
    rcases m.sm.event <;> simp only [] <;> first
      | rfl
      | exact callers_mgmtLinkIsOngoing m
      | exact hlink
      | exact hlink'
      | exact callers_enterConnected m
  · simp only [stepConnected, connectedEffect]
    rcases m.sm.event <;> simp only [] <;> first
      | rfl
      | exact hscan
      | simp only [callers_enterScan, callers_mgmtConnectRetryParamSet, callers_enterIdle,
          callers_takeStaCfg]; rfl
      | (rw [callers_mgmtPostScanDone]
         split
         · rw [callers_mgmtConnectedScanDone]; rfl
         · rfl)
      | exact callers_mgmtPostScanDone m _
      | (rw [callers_connectedDisconnect]; split <;> rfl)
      | (split <;> rfl)

end Table

/-! ### The message queue -/

/-- `q'` is `q` with more messages at its end, none of them the command of a call. -/
def Grows (q q' : List Message) : Prop := ∃ l, q' = q ++ l ∧ ∀ msg ∈ l, msg.call = none

@[refl] theorem Grows.refl (q : List Message) : Grows q q := ⟨[], by simp, by simp⟩

theorem Grows.trans {q q' q'' : List Message} (h : Grows q q') (h' : Grows q' q'') :
    Grows q q'' := by
  obtain ⟨l, rfl, hl⟩ := h
  obtain ⟨l', rfl, hl'⟩ := h'
  refine ⟨l ++ l', by simp, fun msg hm => ?_⟩
  rcases List.mem_append.mp hm with hm | hm
  · exact hl msg hm
  · exact hl' msg hm

theorem Grows.subset {q q' : List Message} (h : Grows q q') : q ⊆ q' := by
  obtain ⟨l, rfl, -⟩ := h
  exact List.subset_append_left _ _

/-- The commands of calls stay as they are. -/
theorem Grows.filterMap_call {q q' : List Message} (h : Grows q q') :
    q'.filterMap Message.call = q.filterMap Message.call := by
  obtain ⟨l, rfl, hl⟩ := h
  rw [List.filterMap_append, List.filterMap_eq_nil_iff.mpr hl, List.append_nil]

section Queue

variable (e : MgmtEnv) (m : Mgmt)

theorem queue_send {msg : Message} (h : msg.call = none) :
    Grows m.queue (eloopMessageSend msg m).2.queue := by
  show Grows m.queue (pushQueue m.queue msg)
  rw [pushQueue]
  split
  · exact ⟨[msg], rfl, by simpa using h⟩
  · exact Grows.refl _

theorem queue_mgmtPostConnDone (r : ℕ) : (mgmtPostConnDone r m).queue = m.queue := by
  rw [mgmtPostConnDone]
  split <;> rfl

theorem queue_mgmtPostScanDone (r : ℕ) : (mgmtPostScanDone r m).queue = m.queue := by
  rw [mgmtPostScanDone]
  split <;> rfl

theorem queue_mgmtPreroamRollback : Grows m.queue (mgmtPreroamRollback m).queue := by
  rw [mgmtPreroamRollback]
  split
  · exact queue_send _ rfl
  · exact Grows.refl _

theorem queue_takeStaCfg : (takeStaCfg m).queue = m.queue := by
  rw [takeStaCfg]
  split <;> rfl

theorem queue_wifiNetlinkConnectReq : (wifiNetlinkConnectReq e m).2.queue = m.queue := by
  rw [wifiNetlinkConnectReq]
  split <;> rfl

theorem queue_wifiNetlinkJoinedApLoad : (wifiNetlinkJoinedApLoad e m).2.queue = m.queue := by
  rw [wifiNetlinkJoinedApLoad]
  split <;> rfl

theorem queue_mgmtRegisterDelayedConnectRetry :
    (mgmtRegisterDelayedConnectRetry e m).queue = m.queue := by
  rw [mgmtRegisterDelayedConnectRetry]
  split <;> rfl

theorem queue_enterScan : Grows m.queue (enterScan e m).queue := by
  rw [enterScan]
  split
  · exact Grows.refl _
  · split
    · exact Grows.refl _
    · exact queue_send _ rfl

theorem queue_enterConnect : Grows m.queue (enterConnect e m).queue := by
  have h := queue_wifiNetlinkConnectReq e { m with sm := { m.sm with state := .connect } }
  rw [enterConnect]
  split
  · rw [h]
  · refine Grows.trans ?_ (queue_send _ rfl)
    rw [h]

theorem queue_enterConnected : Grows m.queue (enterConnected m).queue := by
  show Grows _ (connectedAnswer _).queue
  rw [connectedAnswer]
  split
  · exact queue_send _ rfl
  · rw [queue_mgmtPostConnDone]

theorem queue_allRetriesFailed : Grows m.queue (allRetriesFailed m).queue := by
  show Grows _ (mgmtPostConnDone m.sm.reason (mgmtPreroamRollback m)).queue
  rw [queue_mgmtPostConnDone]
  exact queue_mgmtPreroamRollback m

theorem queue_linkFailed : Grows m.queue (linkFailed e m).queue := by
  have hscan : ∀ n : Mgmt, n.queue = m.queue → Grows m.queue (enterScan e n).queue :=
    fun n hn => hn ▸ queue_enterScan e n
  have hfail : ∀ n : Mgmt, n.queue = m.queue → Grows m.queue (allRetriesFailed n).queue :=
    fun n hn => hn ▸ queue_allRetriesFailed n
  rw [linkFailed]
  split
  · rw [queue_mgmtRegisterDelayedConnectRetry]
    exact hscan _ rfl
  · exact hfail _ rfl

theorem queue_mgmtScanCmd : (mgmtScanCmd e m).queue = m.queue := by
  rw [mgmtScanCmd]
  split
  · rfl
  · rw [queue_mgmtPostScanDone]
    rfl

theorem queue_mgmtLinkIsOngoing : (mgmtLinkIsOngoing m).queue = m.queue := by
  rw [mgmtLinkIsOngoing, queue_mgmtPostConnDone]

theorem queue_mgmtConnectedScanDone : Grows m.queue (mgmtConnectedScanDone e m).queue := by
  rw [mgmtConnectedScanDone]
  split
  · exact Grows.refl _
  · split
    · exact Grows.refl _
    · split
      · split
        · split
          · exact queue_send _ rfl
          · exact Grows.refl _
        · exact Grows.refl _
      · split
        · exact queue_send _ rfl
        · exact Grows.refl _

theorem queue_connectedDisconnect : Grows m.queue (connectedDisconnect e m).queue := by
  have h : (disconnectNotify { m with lastReason := m.sm.reason }).queue = m.queue := by
    rw [disconnectNotify]
    split <;> rfl
  rw [connectedDisconnect]
  split
  · split
    · refine Grows.trans ?_ (queue_enterScan e _)
      rw [show (mgmtConnectRetryParamSet true _).queue = _ from h]
    · refine Grows.trans ?_ (queue_allRetriesFailed _)
      rw [show (mgmtConnectRetryParamSet true _).queue = _ from h]
  · rw [show (enterIdle _).queue = _ from h]

/-- **A step of the station machine only adds to the queue.** -/
theorem queue_maintainConnectionStep : Grows m.queue (maintainConnectionStep e m).queue := by
  rw [maintainConnectionStep]
  split
  · exact Grows.refl _
  rcases m.sm.state
  · simp only [stepIdle]
    split
    · rw [queue_mgmtScanCmd]
    · refine Grows.trans ?_ (queue_enterScan e _)
      rw [show (mgmtConnectRetryParamSet false _).queue = _ from queue_takeStaCfg m]
    · split
      · refine Grows.trans ?_ (queue_enterScan e _)
        rw [show (mgmtConnectRetryParamSet true _).queue = _ from
          queue_wifiNetlinkJoinedApLoad e m]
      · rw [show (enterIdle _).queue = _ from queue_wifiNetlinkJoinedApLoad e m]
    · rw [queue_mgmtPostScanDone]
    · exact Grows.refl _
    · exact Grows.refl _
  · exact Grows.refl _
  · simp only [stepScan]
    split
    · rw [queue_mgmtLinkIsOngoing]
    · rw [queue_mgmtLinkIsOngoing]
    · exact Grows.refl _
    · exact Grows.refl _
    · exact queue_enterConnect e m
    · split
      · rw [queue_mgmtRegisterDelayedConnectRetry]
      · exact queue_allRetriesFailed m
    · exact Grows.refl _
  · simp only [stepConnect]
    split <;> first
      | exact Grows.refl _
      | exact queue_linkFailed e m
  · simp only [stepHandshake]
    split <;> first
      | exact Grows.refl _
      | exact queue_linkFailed e m
      | exact queue_linkFailed e (driverRequest .disconnectReq m)
  · simp only [stepDhcp]
    split <;> first
      | exact Grows.refl _
      | exact queue_enterConnected m
      | exact queue_linkFailed e m
      | exact queue_linkFailed e (driverRequest .disconnectReq m)
  · simp only [stepConnected]
    split
    · rw [queue_mgmtScanCmd]
    · refine Grows.trans ?_ (queue_enterScan e _)
      rw [show (mgmtConnectRetryParamSet false (enterIdle _)).queue = _ from queue_takeStaCfg m]
    · exact Grows.refl _
    · rw [queue_mgmtPostScanDone]
      split
      · exact queue_mgmtConnectedScanDone e m
      · exact Grows.refl _
    · rw [queue_mgmtPostScanDone]
    · exact queue_connectedDisconnect e m
    · split <;> exact Grows.refl _
    · exact Grows.refl _

end Queue

/-! ### The other machines and the switch -/

section Others

variable (e : MgmtEnv) (m : Mgmt)

/-- The row of `STARTED` upon scans. -/
def startedEffect : Effect :=
  match m.sm.event with
  | .scanCmd => scanCmdEffect e
  | .scanDone => .scanAnswer scanSuccess
  | .scanFail => .scanAnswer scanFailed
  | _ => .nothing

/-- The row of `INIT`: a start that succeeds or fails. -/
def startEffect (k : WaitKind) (ret : ℤ) : Effect :=
  if ret = 0 then .start k .started 0 else .start k .init 1

/-- The table of the access point. -/
def softapEffect : Effect :=
  if m.sm.init = false ∨ m.sm.event = .init then .reset
  else
    match m.sm.state with
    | .init => if m.sm.event = .startApCmd then startEffect .apStartDone e.apStart else .nothing
    | .started => if m.sm.event = .stopApCmd then .enter .init else startedEffect e m
    | _ => .nothing

/-- The table of the monitor. -/
def monitorEffect : Effect :=
  if m.sm.init = false ∨ m.sm.event = .init then .reset
  else
    match m.sm.state with
    | .init =>
      if m.sm.event = .monitorStartCmd then startEffect .monitorStartDone e.monitorStart
      else .nothing
    | .started => startedEffect e m
    | _ => .nothing

/-- The table of the mode. -/
def stepEffect : Effect :=
  match m.wvifType with
  | .sta => stationEffect e m
  | .ap => softapEffect e m
  | .monitor => monitorEffect e m
  | .unknown => .nothing

/-- What leaving a mode does. -/
def Callers.leave (c : Callers) : Callers :=
  match c.wvifType with
  | .sta => { c.toIdle with conn := false }
  | .ap => { c.enter .init with conn := e.apLeft.connBlocked }
  | .monitor => c.enter .init
  | .unknown => c

/-- What a switch to the mode `t` does. -/
def Callers.switchMode (t : WvifType) (c : Callers) : Callers :=
  if c.wvifType = t then c
  else
    { c.leave e with
      wvifType := t
      init := e.typeSet || (c.leave e).init
      state := if e.typeSet = false ∨ t = .unknown then (c.leave e).state else .idle }

theorem callers_startedScan :
    callers (startedScan e m) =
      (startedEffect e m).apply m.sm.reason m.sm.param (callers m) := by
  rw [startedScan, startedEffect]
  rcases m.sm.event <;> simp only [] <;> first
    | rfl
    | exact callers_mgmtScanCmd_effect e m
    | exact callers_mgmtPostScanDone m _

theorem callers_maintainSoftapStep :
    callers (maintainSoftapStep e m) =
      (softapEffect e m).apply m.sm.reason m.sm.param (callers m) := by
  rw [maintainSoftapStep, softapEffect]
  split
  · rfl
  · rcases m.sm.state <;> simp only []
    · split
      · rw [startEffect]
        split <;> rfl
      · rfl
    · split
      · rfl
      · exact callers_startedScan e m
    all_goals rfl

theorem callers_maintainMonitorStep :
    callers (maintainMonitorStep e m) =
      (monitorEffect e m).apply m.sm.reason m.sm.param (callers m) := by
  rw [maintainMonitorStep, monitorEffect]
  split
  · rfl
  · rcases m.sm.state <;> simp only []
    · split
      · rw [startEffect]
        split <;> rfl
      · rfl
    · exact callers_startedScan e m
    all_goals rfl

theorem callers_mgmtSwitchMode :
    callers (mgmtSwitchMode e m) =
      (callers m).switchMode e (WvifType.ofNumber m.sm.reason) := by
  have hleave : callers (wifiVifReset e m.wvifType (resetMachine m.wvifType m)) =
      (callers m).leave e := by
    rcases ht : m.wvifType <;>
      simp only [Callers.leave, show (callers m).wvifType = m.wvifType from rfl, ht] <;> rfl
  rw [mgmtSwitchMode, Callers.switchMode]
  by_cases h : m.wvifType = WvifType.ofNumber m.sm.reason
  · rw [if_pos h, if_pos (show (callers m).wvifType = _ from h)]
  rw [if_neg h, if_neg (show ¬(callers m).wvifType = _ from h), ← hleave]
  rcases he : e.typeSet
  · rfl
  · rcases WvifType.ofNumber m.sm.reason
    · rfl
    all_goals
      rfl

/-- **What the callers see of a message.** -/
theorem callers_runStateMachine :
    callers (runStateMachine e m) =
      if m.sm.event = .switchModeCmd then
        (callers m).switchMode e (WvifType.ofNumber m.sm.reason)
      else (stepEffect e m).apply m.sm.reason m.sm.param (callers m) := by
  rw [runStateMachine, stepEffect]
  split
  · exact callers_mgmtSwitchMode e m
  · rcases m.wvifType <;> simp only []
    · rfl
    · exact callers_maintainConnectionStep e m
    · exact callers_maintainSoftapStep e m
    · exact callers_maintainMonitorStep e m

theorem queue_startedScan : (startedScan e m).queue = m.queue := by
  rw [startedScan]
  split
  · exact queue_mgmtScanCmd e m
  · exact queue_mgmtPostScanDone m _
  · exact queue_mgmtPostScanDone m _
  · rfl

theorem queue_mgmtSwitchMode : (mgmtSwitchMode e m).queue = m.queue := by
  have h : (wifiVifReset e m.wvifType (resetMachine m.wvifType m)).queue = m.queue := by
    rcases m.wvifType <;> rfl
  rw [mgmtSwitchMode]
  split
  · rfl
  · split
    · exact h
    · rcases WvifType.ofNumber m.sm.reason <;> exact h

/-- **A message only adds to the queue.** -/
theorem queue_runStateMachine : Grows m.queue (runStateMachine e m).queue := by
  rw [runStateMachine]
  split
  · rw [queue_mgmtSwitchMode]
  · split
    · exact queue_maintainConnectionStep e m
    · rw [maintainSoftapStep]
      split
      · exact Grows.refl _
      · split
        · split
          · split <;> exact Grows.refl _
          · exact Grows.refl _
        · split
          · exact Grows.refl _
          · rw [queue_startedScan]
        · exact Grows.refl _
    · rw [maintainMonitorStep]
      split
      · exact Grows.refl _
      · split
        · split
          · split <;> exact Grows.refl _
          · exact Grows.refl _
        · rw [queue_startedScan]
        · exact Grows.refl _
    · exact Grows.refl _

/-- What the callers see of a timeout: at most that the machine goes to `SCAN`. -/
theorem callers_mgmtTimeout (t : MgmtTimer) :
    callers (mgmtTimeout e t m) =
      if t = .connectRetry then (callers m).enter .scan else callers m := by
  cases t
  · simp only [mgmtTimeout, mgmtDhcpPolling]
    split
    · rfl
    · split <;> rfl
  · have h : callers (linkPollingScan m) = callers m := by
      rw [linkPollingScan]
      split <;> rfl
    simp only [mgmtTimeout, mgmtLinkStatusPolling]
    split
    · split
      · rfl
      · exact h
    · rfl
  · simp only [mgmtTimeout, mgmtConnectRetry, callers_enterScan]
    rfl

theorem queue_mgmtTimeout (t : MgmtTimer) : Grows m.queue (mgmtTimeout e t m).queue := by
  cases t
  · simp only [mgmtTimeout, mgmtDhcpPolling]
    split
    · exact queue_send _ rfl
    · split
      · exact Grows.refl _
      · exact queue_send _ rfl
  · have h : (linkPollingScan m).queue = m.queue := by
      rw [linkPollingScan]
      split <;> rfl
    simp only [mgmtTimeout, mgmtLinkStatusPolling]
    split
    · split
      · exact Grows.refl _
      · show Grows m.queue (linkPollingScan m).queue
        rw [h]
    · exact Grows.refl _
  · exact Grows.trans (Grows.refl m.queue) (queue_enterScan e
      { m with
        sm := { m.sm with retryCount := u32sub m.sm.retryCount 1, delayedConnectRetry := false } })

end Others

end Gd32.Wifi
