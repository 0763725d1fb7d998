import Gd32Firmware.Wifi.Management

/-!
# The state machines of the WiFi manager

The three machines of `wifi_management.c`, the switch between them, and what the task does with a
message (`wifiMgmtCbRunStateMachine`) and with a timeout that has expired
(`mgmtTimeout`). A branch that only prints, or only calls into `wifi_wpa.c`, the network
stack or the access point's library, changes nothing here: what those send back are messages.
-/

namespace Gd32.Wifi

/-! ### Retries and roaming -/

def mgmtConnectRetryParamSet (roamingRequired : Bool) (m : Mgmt) : Mgmt :=
  { m with
    sm :=
      if roamingRequired then
        if intervalSecMs = 0 then
          { m.sm with retryCount := 0, retryLimit := repeatCnt, retryInterval := 0 }
        else if repeatCnt = 0 ∨ unlimitedRoamingRetry then
          { m.sm with
            retryCount := roamingRetryUnlimited - 1
            retryLimit := roamingRetryUnlimited
            retryInterval := intervalSecMs }
        else
          { m.sm with
            retryCount := repeatCnt - 1, retryLimit := repeatCnt, retryInterval := intervalSecMs }
      else
        { m.sm with
          retryCount := connectRetryLimit - 1
          retryLimit := connectRetryLimit
          retryInterval := connectRetryInterval } }

/-- `mgmt_register_delayed_connect_retry`; the interval does not matter here. -/
def mgmtRegisterDelayedConnectRetry (e : MgmtEnv) (m : Mgmt) : Mgmt :=
  if .connectRetry ∈ m.timeout then m else timeoutRegister e .connectRetry m

def mgmtLinkIsOngoing (m : Mgmt) : Mgmt :=
  mgmtPostConnDone macStFailure { m with cfg := { m.cfg with connBlocked := true } }

def mgmtPreroamRollback (m : Mgmt) : Mgmt :=
  if m.sm.preroamStart ∧ m.sm.preroamBssidBk ≠ 0 then
    (eloopEventSend .connectCmd
      { m with
        sm := { m.sm with preroamStart := false, pollingScanCount := 0, preroamBssidBk := 0 }
        cfg := { m.cfg with channel := 0xFF, bssid := m.sm.preroamBssidBk, connWithBssid := true } }).2
  else m

def mgmtConnectedScanDone (e : MgmtEnv) (m₀ : Mgmt) : Mgmt :=
  let m := { m₀ with sm := { m₀.sm with pollingScan := false } }
  match e.candidate with
  | none => m
  | some candidate =>
    if candidate.bssid = m.cfg.bssid then m
    else if candidate.ft then
      let m := timeoutCancel .linkStatusPolling { m with sm := { m.sm with pollingScanCount := 0 } }
      if e.rssi + roamingRssiRelativeGain ≤ candidate.rssi then
        let m := { m with cfg := { m.cfg with channel := candidate.channel } }
        if e.targetAlloc then (eloopMessageSend ⟨.ftRoamingCmd, 0, some .other, none⟩ m).2 else m
      else m
    else if e.rssi + roamingRssiRelativeGain ≤ candidate.rssi then
      (eloopEventSend .connectCmd { m with cfg := { m.cfg with channel := candidate.channel } }).2
    else m

/-! ### The station machine: entering a state -/

/-- `SM_STATE(MAINTAIN_CONNECTION, IDLE)`. -/
def enterIdle (m : Mgmt) : Mgmt :=
  mgmtPostDisconnDone <| driverRequest .disconnectReq <| timeoutCancel .connectRetry <|
    timeoutCancel .linkStatusPolling <| timeoutCancel .dhcpPolling
      { m with sm := { m.sm with state := .idle, delayedConnectRetry := false } }

/-- The channel a scan for the access point starts on. -/
def scanChannel (m : Mgmt) : ℕ :=
  if m.lastReason = connNoAp ∨ m.lastReason = disconNoBeacon ∨ m.lastReason = disconRecvDeauth ∨
      m.lastReason = disconUnspecified then 0xFF
  else m.cfg.channel

/-- The scan for the access point. -/
def scanReq (m : Mgmt) : DriverReq :=
  if m.cfg.connWithBssid then .scanSet (scanChannel m)
  else .scanSetWithSsid m.cfg.ssid (scanChannel m)

/-- `SM_STATE(MAINTAIN_CONNECTION, SCAN)`. -/
def enterScan (e : MgmtEnv) (m₀ : Mgmt) : Mgmt :=
  let m := timeoutCancel .linkStatusPolling <| timeoutCancel .dhcpPolling
    { m₀ with sm := { m₀.sm with state := .scan } }
  if m.sm.delayedConnectRetry then m
  else if e.scanSet = 0 then driverRequest (scanReq m) m
  else (eloopEventSend .scanFail (driverRequest (scanReq m) m)).2

/-- `SM_STATE(MAINTAIN_CONNECTION, CONNECT)`. -/
def enterConnect (e : MgmtEnv) (m₀ : Mgmt) : Mgmt :=
  let r := wifiNetlinkConnectReq e { m₀ with sm := { m₀.sm with state := .connect } }
  if r.1 = 0 then r.2 else (eloopMessageSend ⟨.connectFail, r.1, none, none⟩ r.2).2

/-- `SM_STATE(MAINTAIN_CONNECTION, HANDSHAKE)`. -/
def enterHandshake (m : Mgmt) : Mgmt := { m with sm := { m.sm with state := .handshake } }

/-- `SM_STATE(MAINTAIN_CONNECTION, DHCP)`. -/
def enterDhcp (e : MgmtEnv) (m : Mgmt) : Mgmt :=
  timeoutRegister e .dhcpPolling
    { m with
      sm := { m.sm with
        state := .dhcp
        dhcpPollingCount := if e.staticIp then m.sm.dhcpPollingCount else dhcpPollingLimit } }

/-- The answer to a blocked connect in `CONNECTED`, or the event that takes its place. -/
def connectedAnswer (m : Mgmt) : Mgmt :=
  if m.cfg.connBlocked = false then (eloopEventSend .connectSuccess m).2
  else mgmtPostConnDone macStSuccessful m

/-- What `CONNECTED` clears at its end. -/
def connectedClear (m : Mgmt) : Mgmt :=
  { m with
    sm := { m.sm with preroamStart := false, pollingScanCount := 0, preroamBssidBk := 0 }
    cfg := { m.cfg with connWithBssid := false } }

/-- `SM_STATE(MAINTAIN_CONNECTION, CONNECTED)`. -/
def enterConnected (m : Mgmt) : Mgmt :=
  connectedClear <| connectedAnswer
    { m with sm := { m.sm with state := .connected }, lastReason := 0, connectedFor := m.served }

/-! ### The station machine: one step -/

/-- The branches upon `SCAN_CMD` that start a scan. -/
def mgmtScanCmd (e : MgmtEnv) (m : Mgmt) : Mgmt :=
  let req := match m.sm.param with
    | some (.ssid ssid) => .scanSetWithSsid ssid 0xFF
    | some _ => .scanSetWithSsid [] 0xFF
    | none => .scanSet 0xFF
  if e.scanSet = 0 then driverRequest req m
  else mgmtPostScanDone scanStartFail (driverRequest req m)

/-- The end of an attempt with no retries left. -/
def allRetriesFailed (m : Mgmt) : Mgmt :=
  enterIdle <| mgmtPostConnDone m.sm.reason <| mgmtPreroamRollback m

/-- The branches upon `CONNECT_FAIL`, `DISCONNECT` and `DHCP_FAIL` that try again. -/
def linkFailed (e : MgmtEnv) (m₀ : Mgmt) : Mgmt :=
  let m := { m₀ with lastReason := m₀.sm.reason }
  if 0 < m.sm.retryCount then
    mgmtRegisterDelayedConnectRetry e <| enterScan e
      { m with sm := { m.sm with delayedConnectRetry := true } }
  else allRetriesFailed m

/-- `sys_memcpy(&sta.cfg, sm->param, sm->param_len)`; a `CONNECT_CMD` carries a `struct sta_cfg`
or nothing. -/
def takeStaCfg (m : Mgmt) : Mgmt :=
  match m.sm.param with
  | some (.staCfg cfg) => { m with cfg := cfg }
  | _ => m

/-- `SM_STEP(MAINTAIN_CONNECTION)` in `IDLE`. -/
def stepIdle (e : MgmtEnv) (m : Mgmt) : Mgmt :=
  match m.sm.event with
  | .scanCmd => mgmtScanCmd e m
  | .connectCmd => enterScan e (mgmtConnectRetryParamSet false (takeStaCfg m))
  | .autoConnectCmd =>
    if (wifiNetlinkJoinedApLoad e m).1 then
      enterScan e (mgmtConnectRetryParamSet true (wifiNetlinkJoinedApLoad e m).2)
    else enterIdle (wifiNetlinkJoinedApLoad e m).2
  | .scanDone => mgmtPostScanDone scanSuccess m
  | .disconnectCmd => mgmtPostDisconnDone m
  -- `SCAN_FAIL` is taken here as well, without an answer to whoever waits for the scan
  | _ => m

/-- `SM_STEP(MAINTAIN_CONNECTION)` in `SCAN`. -/
def stepScan (e : MgmtEnv) (m : Mgmt) : Mgmt :=
  match m.sm.event with
  | .scanCmd | .connectCmd => mgmtLinkIsOngoing m
  | .disconnectCmd | .connectFail => enterIdle m
  | .scanDone => enterConnect e m
  | .scanFail =>
    if 0 < m.sm.retryCount then mgmtRegisterDelayedConnectRetry e m else allRetriesFailed m
  | _ => m

/-- `SM_STEP(MAINTAIN_CONNECTION)` in `CONNECT`. -/
def stepConnect (e : MgmtEnv) (m : Mgmt) : Mgmt :=
  match m.sm.event with
  | .scanCmd | .connectCmd => mgmtLinkIsOngoing m
  | .disconnectCmd => enterIdle m
  | .assocSuccess => enterHandshake m
  | .connectFail | .disconnect => linkFailed e m
  | _ => m

/-- `SM_STEP(MAINTAIN_CONNECTION)` in `HANDSHAKE`. -/
def stepHandshake (e : MgmtEnv) (m : Mgmt) : Mgmt :=
  match m.sm.event with
  | .scanCmd | .connectCmd => mgmtLinkIsOngoing m
  | .disconnectCmd => enterIdle m
  | .connectFail => linkFailed e (driverRequest .disconnectReq m)
  | .disconnect => linkFailed e m
  | .dhcpStart => enterDhcp e m
  | _ => m

/-- `SM_STEP(MAINTAIN_CONNECTION)` in `DHCP`. -/
def stepDhcp (e : MgmtEnv) (m : Mgmt) : Mgmt :=
  match m.sm.event with
  | .scanCmd | .connectCmd => mgmtLinkIsOngoing m
  | .disconnectCmd => enterIdle m
  | .dhcpSuccess => timeoutCancel .connectRetry (enterConnected m)
  | .dhcpFail | .connectFail => linkFailed e (driverRequest .disconnectReq m)
  | .disconnect => linkFailed e m
  | _ => m

/-- The request upon `WIFI_MGMT_DISCON_SA_QUERY_FAIL`, of which the driver does not know. -/
def disconnectNotify (m : Mgmt) : Mgmt :=
  if m.sm.reason = disconSaQueryFail then driverRequest .disconnectReq m else m

/-- Whether the loss of a connection with this reason is followed by a new attempt. -/
def reconnects (reason : ℕ) : Prop :=
  reason = disconNoBeacon ∨ reason = disconUnspecified ∨ reason = disconRecvDeauth ∨
    reason = disconSaQueryFail

instance (reason : ℕ) : Decidable (reconnects reason) :=
  inferInstanceAs (Decidable (_ ∨ _ ∨ _ ∨ _))

/-- The `DISCONNECT` branch in `CONNECTED`. -/
def connectedDisconnect (e : MgmtEnv) (m₀ : Mgmt) : Mgmt :=
  let m := disconnectNotify { m₀ with lastReason := m₀.sm.reason }
  if reconnects m.sm.reason then
    if 0 < (mgmtConnectRetryParamSet true m).sm.retryCount then
      enterScan e (mgmtConnectRetryParamSet true m)
    else allRetriesFailed (mgmtConnectRetryParamSet true m)
  else enterIdle m

/-- `SM_STEP(MAINTAIN_CONNECTION)` in `CONNECTED`. -/
def stepConnected (e : MgmtEnv) (m : Mgmt) : Mgmt :=
  match m.sm.event with
  | .scanCmd => mgmtScanCmd e m
  | .connectCmd => enterScan e (mgmtConnectRetryParamSet false (enterIdle (takeStaCfg m)))
  | .disconnectCmd => enterIdle m
  | .scanDone =>
    mgmtPostScanDone scanSuccess (if m.sm.pollingScan then mgmtConnectedScanDone e m else m)
  | .scanFail => mgmtPostScanDone scanFailed m
  | .disconnect => connectedDisconnect e m
  | .roamingStart =>
    if m.sm.preroamEnable then
      timeoutRegister e .linkStatusPolling
        { m with sm := { m.sm with preroamStart := true, preroamBssidBk := m.cfg.bssid } }
    else m
  | _ => m

/-- `SM_STEP(MAINTAIN_CONNECTION)`. -/
def maintainConnectionStep (e : MgmtEnv) (m : Mgmt) : Mgmt :=
  if m.sm.init = false ∨ m.sm.event = .init then
    enterIdle <| mgmtConnectRetryParamSet false
      { m with sm := { SmData.zero with init := true, preroamEnable := true } }
  else
    match m.sm.state with
    | .idle => stepIdle e m
    | .wps => m
    | .scan => stepScan e m
    | .connect => stepConnect e m
    | .handshake => stepHandshake e m
    | .dhcp => stepDhcp e m
    | .connected => stepConnected e m

/-! ### The other two machines -/

/-- `SM_STATE(MAINTAIN_SOFTAP, ·)` and `SM_STATE(MAINTAIN_MONITOR, ·)`. -/
def enterState (state : ConnState) (m : Mgmt) : Mgmt := { m with sm := { m.sm with state := state } }

/-- The branches upon a scan in `STARTED` of the other two machines. -/
def startedScan (e : MgmtEnv) (m : Mgmt) : Mgmt :=
  match m.sm.event with
  | .scanCmd => mgmtScanCmd e m
  | .scanDone => mgmtPostScanDone scanSuccess m
  | .scanFail => mgmtPostScanDone scanFailed m
  | _ => m

/-- `SM_STEP(MAINTAIN_SOFTAP)`. -/
def maintainSoftapStep (e : MgmtEnv) (m : Mgmt) : Mgmt :=
  if m.sm.init = false ∨ m.sm.event = .init then
    enterState .init { m with sm := { SmData.zero with init := true } }
  else
    match m.sm.state with
    | .init =>
      if m.sm.event = .startApCmd then
        if e.apStart = 0 then mgmtPostApStartDone 0 (enterState .started m)
        else mgmtPostApStartDone 1 (enterState .init m)
      else m
    | .started => if m.sm.event = .stopApCmd then enterState .init m else startedScan e m
    | _ => m

/-- `SM_STEP(MAINTAIN_MONITOR)`. -/
def maintainMonitorStep (e : MgmtEnv) (m : Mgmt) : Mgmt :=
  if m.sm.init = false ∨ m.sm.event = .init then
    enterState .init { m with sm := { SmData.zero with init := true } }
  else
    match m.sm.state with
    | .init =>
      if m.sm.event = .monitorStartCmd then
        if e.monitorStart = 0 then mgmtPostMonitorStartDone 0 (enterState .started m)
        else mgmtPostMonitorStartDone 1 (enterState .init m)
      else m
    | .started => startedScan e m
    | _ => m

/-! ### The switch of the mode -/

/-- The reset of the machine of the mode that is left, in `mgmt_switch_mode`. -/
def resetMachine (prevType : WvifType) (m : Mgmt) : Mgmt :=
  match prevType with
  | .sta => enterIdle m
  | .ap => enterState .init m
  | .monitor => enterState .init m
  | .unknown => m

/-- `wifi_vif_reset`. `sta`, `ap` and `monitor` share their memory: what is behind the
configuration of the access point, which alone is cleared, stays in place. -/
def wifiVifReset (e : MgmtEnv) (type : WvifType) (m : Mgmt) : Mgmt :=
  match type with
  | .sta => { m with cfg := StaCfg.zero }
  | .ap => { m with cfg := e.apLeft }
  | _ => m

/-- `mgmt_switch_mode`. The event it clears is not read again. -/
def mgmtSwitchMode (e : MgmtEnv) (m₀ : Mgmt) : Mgmt :=
  let wvifType := WvifType.ofNumber m₀.sm.reason
  let prevType := m₀.wvifType
  if prevType = wvifType then m₀
  else
    let m := { wifiVifReset e prevType (resetMachine prevType m₀) with wvifType := wvifType }
    if e.typeSet = false then m
    else
      let m := { m with sm := { m.sm with reason := 0, init := true } }
      match wvifType with
      | .sta =>
        enterState .idle
          (mgmtConnectRetryParamSet false { m with sm := { m.sm with pollingScan := false } })
      | .ap => enterState .init m
      | .monitor => enterState .init m
      | .unknown => m

/-! ### Messages and timeouts -/

/-- The message in the data of the machine. -/
def takeMessage (msg : Message) (m : Mgmt) : Mgmt :=
  { m with
    sm := { m.sm with event := msg.event, reason := msg.reason % 2 ^ 16, param := msg.param }
    serving := msg.call
    served := if msg.call.isSome then msg.call else m.served }

/-- The step of the machine of the mode, or the switch of the mode. -/
def runStateMachine (e : MgmtEnv) (m : Mgmt) : Mgmt :=
  if m.sm.event = .switchModeCmd then mgmtSwitchMode e m
  else
    match m.wvifType with
    | .sta => maintainConnectionStep e m
    | .ap => maintainSoftapStep e m
    | .monitor => maintainMonitorStep e m
    | .unknown => m

/-- The parameter is freed. -/
def dropMessage (m : Mgmt) : Mgmt := { m with sm := { m.sm with param := none }, serving := none }

def wifiMgmtCbRunStateMachine (e : MgmtEnv) (msg : Message) (m : Mgmt) : Mgmt :=
  dropMessage (runStateMachine e (takeMessage msg m))

/-- `--sm->dhcp_polling_count`. -/
def dhcpPollingTick (m : Mgmt) : Mgmt :=
  { m with sm := { m.sm with dhcpPollingCount := (m.sm.dhcpPollingCount + 255) % 256 } }

def mgmtDhcpPolling (e : MgmtEnv) (m : Mgmt) : Mgmt :=
  if e.addressObtained ∨ e.staticIp then (eloopEventSend .dhcpSuccess m).2
  else if (dhcpPollingTick m).sm.dhcpPollingCount ≠ 0 then
    timeoutRegister e .dhcpPolling (dhcpPollingTick m)
  else
    -- the message carries no reason, and taking it overwrites the one set here
    (eloopEventSend .dhcpFail
      { dhcpPollingTick m with sm := { (dhcpPollingTick m).sm with reason := connDhcpFail } }).2

/-- The scan for a better access point that `mgmt_link_status_polling` starts now and then. -/
def linkPollingScan (m : Mgmt) : Mgmt :=
  if m.sm.pollingScanCount < 10 ∨ m.sm.pollingScanCount % pollingScanTriggerPoint = 0 then
    driverRequest (if m.sm.param.isSome then .scanSetWithSsid m.cfg.ssid 0xFF else .scanSet 0xFF)
      { m with sm := { m.sm with pollingScan := true } }
  else m

/-- `++sm->polling_scan_count`. -/
def linkPollingTick (m : Mgmt) : Mgmt :=
  { m with sm := { m.sm with pollingScanCount := (m.sm.pollingScanCount + 1) % 2 ^ 16 } }

def mgmtLinkStatusPolling (e : MgmtEnv) (m : Mgmt) : Mgmt :=
  if m.sm.preroamEnable ∧ m.sm.preroamStart then
    if e.rssiThresh + vifRssiHysteresis < e.rssi then
      { m with sm := { m.sm with preroamStart := false, pollingScanCount := 0, preroamBssidBk := 0 } }
    else timeoutRegister e .linkStatusPolling (linkPollingTick (linkPollingScan m))
  else m

def mgmtConnectRetry (e : MgmtEnv) (m : Mgmt) : Mgmt :=
  enterScan e
    { m with
      sm := { m.sm with retryCount := u32sub m.sm.retryCount 1, delayedConnectRetry := false } }

/-- The callback of a timeout. -/
def mgmtTimeout (e : MgmtEnv) : MgmtTimer → Mgmt → Mgmt
  | .dhcpPolling => mgmtDhcpPolling e
  | .linkStatusPolling => mgmtLinkStatusPolling e
  | .connectRetry => mgmtConnectRetry e

/-! ### Runs -/

/-- `wifi_management_init` and `wifi_netlink_start`; with `autoConn` the access point of the last
time is joined again. -/
def wifiManagementInit (autoConn : Bool) : Mgmt :=
  { sm := SmData.zero
    wvifType := .sta
    cfg := StaCfg.zero
    lastReason := 0
    queue := ⟨.init, 0, none, none⟩ ::
      if autoConn then
        [⟨.switchModeCmd, WvifType.sta.number, none, none⟩, ⟨.autoConnectCmd, 0, none, none⟩]
      else []
    wait := []
    timeout := []
    driver := []
    serving := none
    served := none
    connectedFor := none }

/-- What can happen to the task and its queues. -/
inductive MgmtStep where
  /-- A task or the driver sends a message. -/
  | send (msg : Message)
  /-- `wifi_management_scan`, up to where it waits for the answer. -/
  | scan (blocked : Bool) (ssid : Option (List ℕ))
  | fetch
  | dispatch (e : MgmtEnv)
  | expire (t : MgmtTimer) (e : MgmtEnv)

/-- The sending part of `wifi_management_scan`. -/
def scanSend (blocked : Bool) (ssid : Option (List ℕ)) (call : Option ℕ) (m₀ : Mgmt) : ℤ × Mgmt :=
  let r := eloopMessageSend ⟨.scanCmd, 0, ssid.map .ssid, call⟩
    { m₀ with sm := { m₀.sm with scanBlocked := blocked } }
  if r.1 = 0 then r
  else (-2, { r.2 with sm := { r.2.sm with scanBlocked := false } })

/-- One step. -/
def mgmtStep : MgmtStep → Mgmt → Option Mgmt
  | .send msg, m => some (eloopMessageSend msg m).2
  | .scan blocked ssid, m => some (scanSend blocked ssid none m).2
  | .fetch, m =>
    match m.wait with
    | [] => none
    | _ :: wait => some { m with wait := wait }
  | .dispatch e, m =>
    match m.queue with
    | [] => none
    | msg :: queue => some (wifiMgmtCbRunStateMachine e msg { m with queue := queue })
  | .expire t e, m =>
    if t ∈ m.timeout then some (mgmtTimeout e t { m with timeout := m.timeout.erase t }) else none

end Gd32.Wifi
