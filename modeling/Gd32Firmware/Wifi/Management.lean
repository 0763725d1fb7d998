import Gd32Firmware.Config
import Mathlib.Data.Int.Notation

/-!
# The management task of the WiFi manager

`wifi_management.c`: one interface of the chip is driven by a task that takes messages from its
queue, one at a time, and steps the state machine of the mode the interface is in: the station
machine `MAINTAIN_CONNECTION`, the access point or the monitor. Its timeouts are callbacks that
run between two messages. A blocked caller sleeps on `mgmt_wait_queue`, into which the task posts
its answers; the flags `conn_blocked` and `scan_blocked` say whether somebody is waiting.

The build is that of `wlan_config.h`: `CFG_SOFTAP` and `CFG_80211R` are set, `CFG_WPS` and
`CONFIG_WPA_SUPPLICANT` are not. The interface is `WIFI_VIF_INDEX_DEFAULT` with
`wifi_concurrent_mode` off, as it is at the start. What the driver, the network stack, the store
of the joined access point and the allocator answer while a message is handled is given with it
(`MgmtEnv`). Three records carry a field that is not in the source: which call sent a
message, which call an answer was posted for, and the calls served so far; no branch reads them.
-/

namespace Gd32.Wifi

/-! ### The data -/

/-- `enum wifi_vif_type`. -/
inductive WvifType where
  | unknown
  | sta
  | ap
  | monitor
  deriving DecidableEq, Repr

/-- The number of a mode, as `SWITCH_MODE_CMD` carries it. -/
def WvifType.number : WvifType → ℕ
  | unknown => 0
  | sta => 1
  | ap => 2
  | monitor => 3

/-- The mode with a number. -/
def WvifType.ofNumber : ℕ → WvifType
  | 1 => sta
  | 2 => ap
  | 3 => monitor
  | _ => unknown

/-- `maintain_conn_state_t`. The states of the other two machines are stored in the same word of
a union: `INIT` as 0 and `STARTED` as 1. -/
inductive ConnState where
  | idle
  | wps
  | scan
  | connect
  | handshake
  | dhcp
  | connected
  deriving DecidableEq, Repr

/-- `MAINTAIN_SOFTAP_INIT` and `MAINTAIN_MONITOR_INIT`, 0 in the union. -/
@[match_pattern] abbrev ConnState.init : ConnState := .idle

/-- `MAINTAIN_SOFTAP_STARTED` and `MAINTAIN_MONITOR_STARTED`, 1 in the union. -/
@[match_pattern] abbrev ConnState.started : ConnState := .wps

/-- `wifi_management_event_t`, the events from `WIFI_MGMT_EVENT_INIT` on. -/
inductive MgmtEvent where
  | init
  | switchModeCmd
  | rxMgmt
  | rxEapol
  | scanCmd
  | connectCmd
  | disconnectCmd
  | autoConnectCmd
  | wpsCmd
  | scanDone
  | scanFail
  | scanResult
  | externalAuthRequired
  | assocSuccess
  | dhcpStart
  | dhcpSuccess
  | dhcpFail
  | connectSuccess
  | connectFail
  | disconnect
  | roamingStart
  | rxUnprotDeauth
  | rxAction
  | wpsSuccess
  | wpsFail
  | wpsCred
  | startApCmd
  | stopApCmd
  | apSwitchChnlCmd
  | txMgmtDone
  | clientAdded
  | clientRemoved
  | monitorStartCmd
  | eapSuccess
  | ftAuth
  | ftRoamingCmd
  deriving DecidableEq, Repr

def connNoAp : ℕ := 2

def connDhcpFail : ℕ := 6

def disconRecvDeauth : ℕ := 11

def disconNoBeacon : ℕ := 12

def disconUnspecified : ℕ := 15

def disconSaQueryFail : ℕ := 16

def scanSuccess : ℕ := 0

def scanStartFail : ℕ := 1

/-- `WIFI_MGMT_SCAN_FAIL`. -/
def scanFailed : ℕ := 2

def macStSuccessful : ℕ := 0

def macStFailure : ℕ := 1

def connectRetryLimit : ℕ := 3

def connectRetryInterval : ℕ := 2000

/-- `repeat_cnt`; nothing writes it. -/
def repeatCnt : ℕ := 100

/-- `interval_sec_ms`; nothing writes it. -/
def intervalSecMs : ℕ := 2500

def roamingRetryUnlimited : ℕ := 0xFFFFFFFF

def unlimitedRoamingRetry : Bool := false

def dhcpPollingLimit : ℕ := 200

def pollingScanTriggerPoint : ℕ := 10

def roamingRssiRelativeGain : ℤ := 10

def vifRssiHysteresis : ℤ := 5

def mgmtTaskQueueSize : ℕ := 24

def mgmtWaitQueueMsgSize : ℕ := 5

/-- `struct sta_cfg`, the part the machines read. Addresses are numbers. -/
structure StaCfg where
  /-- `ssid` with its length. -/
  ssid : List ℕ
  channel : ℕ
  bssid : ℕ
  connWithBssid : Bool
  /-- `conn_blocked`, which is only compared with zero. -/
  connBlocked : Bool
  deriving DecidableEq, Repr

/-- What `param` of a message points to. -/
inductive MgmtParam where
  /-- A `struct sta_cfg`. -/
  | staCfg (cfg : StaCfg)
  | ssid (ssid : List ℕ)
  /-- Anything else: frames, indications, configurations of the other machines. -/
  | other
  deriving DecidableEq, Repr

/-- `eloop_message_t`. -/
structure Message where
  /-- The event of `event_id`. -/
  event : MgmtEvent
  reason : ℕ
  param : Option MgmtParam
  /-- The call whose command this is; no field of the source. -/
  call : Option ℕ
  deriving DecidableEq, Repr

/-- The `evt` of `mgmt_wait_evt_t`. -/
inductive WaitKind where
  | scanDone
  | connDone
  | disconnDone
  | apStartDone
  | monitorStartDone
  deriving DecidableEq, Repr

/-- `mgmt_wait_evt_t`. -/
structure WaitEvt where
  evt : WaitKind
  reason : ℕ
  /-- The call whose command was being handled when it was posted; no field of the source. -/
  serving : Option ℕ
  /-- The last call whose command had been taken when it was posted; no field of the source. -/
  served : Option ℕ
  deriving DecidableEq, Repr

/-- The callbacks of the management task. -/
inductive MgmtTimer where
  /-- `mgmt_dhcp_polling`. -/
  | dhcpPolling
  /-- `mgmt_link_status_polling`. -/
  | linkStatusPolling
  /-- `mgmt_connect_retry`. -/
  | connectRetry
  deriving DecidableEq, Repr

/-- The requests to the driver that are kept in the log. -/
inductive DriverReq where
  /-- `wifi_netlink_scan_set`. -/
  | scanSet (channel : ℕ)
  /-- `wifi_netlink_scan_set_with_ssid`. -/
  | scanSetWithSsid (ssid : List ℕ) (channel : ℕ)
  /-- `wifi_netlink_connect_req`. -/
  | connectReq
  /-- `wifi_netlink_disconnect_req`. -/
  | disconnectReq

/-- `struct mac_scan_result`, the part that is read, and what `mgmt_is_ft_roaming` says of it. -/
structure Candidate where
  ssid : List ℕ
  bssid : ℕ
  /-- The channel of `chan->freq`. -/
  channel : ℕ
  rssi : ℤ
  /-- `mgmt_is_ft_roaming`. -/
  ft : Bool

/-- `wifi_management_sm_data_t`; `param_len` goes with `param`. -/
structure SmData where
  init : Bool
  /-- The state, a union of those of the three machines. -/
  state : ConnState
  event : MgmtEvent
  /-- `reason`, a `uint16_t`. -/
  reason : ℕ
  param : Option MgmtParam
  /-- `dhcp_polling_count`, a `uint8_t`. -/
  dhcpPollingCount : ℕ
  delayedConnectRetry : Bool
  /-- `retry_count`, a `uint32_t`. -/
  retryCount : ℕ
  retryLimit : ℕ
  retryInterval : ℕ
  preroamEnable : Bool
  preroamStart : Bool
  pollingScan : Bool
  /-- `polling_scan_count`, a `uint16_t`. -/
  pollingScanCount : ℕ
  preroamBssidBk : ℕ
  /-- `scan_blocked`, which is only compared with zero. -/
  scanBlocked : Bool

/-- `wifi_sm_data` after `sys_memset`. -/
def SmData.zero : SmData :=
  { init := false, state := .idle, event := .init, reason := 0, param := none
    dhcpPollingCount := 0, delayedConnectRetry := false, retryCount := 0, retryLimit := 0
    retryInterval := 0, preroamEnable := false, preroamStart := false, pollingScan := false
    pollingScanCount := 0, preroamBssidBk := 0, scanBlocked := false }

/-- `struct sta_cfg` after `sys_memset`. -/
def StaCfg.zero : StaCfg := ⟨[], 0, 0, false, false⟩

/-- The interface and its task. -/
structure Mgmt where
  /-- `wifi_sm_data`. -/
  sm : SmData
  wvifType : WvifType
  cfg : StaCfg
  lastReason : ℕ
  /-- The message queue of the task, oldest first. -/
  queue : List Message
  /-- `mgmt_wait_queue`, oldest first. -/
  wait : List WaitEvt
  timeout : List MgmtTimer
  driver : List DriverReq
  /-- The call whose command is being handled; not in the source. -/
  serving : Option ℕ
  /-- The last call whose command has been taken from the queue; not in the source. -/
  served : Option ℕ
  /-- `served`, as it was when `CONNECTED` was last entered; not in the source. -/
  connectedFor : Option ℕ

/-- What the rest of the firmware answers while one message or timeout is handled. -/
structure MgmtEnv where
  /-- Whether `eloop_timeout_register` finds memory. -/
  alloc : Bool
  scanSet : ℤ
  /-- What `wifi_netlink_connect_req` finds among the scan results. -/
  connectAp : Option Candidate
  /-- What `wifi_netlink_connect_req` returns for it. -/
  connectReq : ℕ
  /-- Whether `wifi_netlink_connect_req` came to complete the configuration. -/
  connectCompleted : Bool
  /-- What `wifi_netlink_joined_ap_load` finds in the store. -/
  joinedAp : Option (List ℕ × ℕ)
  staticIp : Bool
  addressObtained : Bool
  /-- `macif_vif_sta_rssi_get`. -/
  rssi : ℤ
  /-- `macif_vif_roaming_rssi_get`. -/
  rssiThresh : ℤ
  /-- What `wifi_netlink_candidate_ap_find` finds for the name in use. -/
  candidate : Option Candidate
  /-- Whether `sys_malloc` finds memory for the target of a fast transition. -/
  targetAlloc : Bool
  /-- Whether the two calls of `wifi_vif_type_set` succeed. -/
  typeSet : Bool
  /-- What `wifi_netlink_ap_start` returns. -/
  apStart : ℤ
  /-- What `wifi_netlink_monitor_start` returns. -/
  monitorStart : ℤ
  /-- What the data of the access point, a member of the same union as `sta`, leave at the place
  of `sta.cfg` when its configuration has been cleared. -/
  apLeft : StaCfg

/-! ### Queues, timeouts and requests -/

/-- `xQueueSend` on `mgmt_wait_queue`. -/
def pushWait (wait : List WaitEvt) (evt : WaitEvt) : List WaitEvt :=
  if wait.length < mgmtWaitQueueMsgSize then wait ++ [evt] else wait

/-- `xQueueSend` on the queue of the task. -/
def pushQueue (queue : List Message) (msg : Message) : List Message :=
  if queue.length < mgmtTaskQueueSize then queue ++ [msg] else queue

/-- `eloop_message_send`: 0, or -1 with the queue full. -/
def eloopMessageSend (msg : Message) (m : Mgmt) : ℤ × Mgmt :=
  (if m.queue.length < mgmtTaskQueueSize then 0 else -1, { m with queue := pushQueue m.queue msg })

def eloopEventSend (event : MgmtEvent) (m : Mgmt) : ℤ × Mgmt :=
  eloopMessageSend ⟨event, 0, none, none⟩ m

/-- `eloop_timeout_register`. -/
def timeoutRegister (e : MgmtEnv) (t : MgmtTimer) (m : Mgmt) : Mgmt :=
  { m with timeout := if e.alloc then m.timeout ++ [t] else m.timeout }

/-- `eloop_timeout_cancel` with `ELOOP_ALL_CTX`. -/
def timeoutCancel (t : MgmtTimer) (m : Mgmt) : Mgmt :=
  { m with timeout := m.timeout.filter fun t' => t' ≠ t }

/-- `wifi_netlink_scan_set` and `wifi_netlink_scan_set_with_ssid`. -/
def driverRequest (req : DriverReq) (m : Mgmt) : Mgmt := { m with driver := m.driver ++ [req] }

/-- `sys_queue_post` on `mgmt_wait_queue`. -/
def waitPost (evt : WaitKind) (reason : ℕ) (m : Mgmt) : Mgmt :=
  { m with wait := pushWait m.wait ⟨evt, reason, m.serving, m.served⟩ }

def mgmtPostConnDone (reason : ℕ) (m : Mgmt) : Mgmt :=
  if m.cfg.connBlocked = false then m
  else waitPost .connDone reason { m with cfg := { m.cfg with connBlocked := false } }

def mgmtPostDisconnDone (m : Mgmt) : Mgmt := waitPost .disconnDone 0 m

def mgmtPostScanDone (reason : ℕ) (m : Mgmt) : Mgmt :=
  if m.sm.scanBlocked = false then m
  else waitPost .scanDone reason { m with sm := { m.sm with scanBlocked := false } }

def mgmtPostApStartDone (reason : ℕ) (m : Mgmt) : Mgmt := waitPost .apStartDone reason m

def mgmtPostMonitorStartDone (reason : ℕ) (m : Mgmt) : Mgmt :=
  waitPost .monitorStartDone reason m

/-- `wifi_netlink_connect_req`, the part that changes what is modelled. -/
def wifiNetlinkConnectReq (e : MgmtEnv) (m : Mgmt) : ℕ × Mgmt :=
  match e.connectAp with
  | none => (connNoAp, { m with lastReason := connNoAp, driver := m.driver ++ [.connectReq] })
  | some ap =>
    let cfg :=
      if m.cfg.connWithBssid then { m.cfg with channel := ap.channel, ssid := ap.ssid }
      else { m.cfg with channel := ap.channel, bssid := ap.bssid }
    (e.connectReq,
      { m with
        driver := m.driver ++ [.connectReq]
        cfg := if e.connectCompleted then cfg else m.cfg })

/-- `wifi_netlink_joined_ap_load`: whether it found something. -/
def wifiNetlinkJoinedApLoad (e : MgmtEnv) (m : Mgmt) : Bool × Mgmt :=
  match e.joinedAp with
  | none => (false, m)
  | some (ssid, channel) => (true, { m with cfg := { m.cfg with ssid := ssid, channel := channel } })

end Gd32.Wifi
