import Gd32Firmware.Lib.Machine
import Gd32Firmware.Wifi.StateMachines
import Mathlib.Data.List.Count

/-!
# Retries and timeouts of the station

Of a step of the machines the timeouts see little: the state, how often each callback is pending,
the retries left and the scans started. `clocks` keeps just these, and says of every
function what it does to them. In every run the callbacks are pending where they should be and at
most once, with one exception (`retries_disciplined_iff`): `ROAMING_START` registers
`mgmt_link_status_polling` without asking whether it is pending already.
-/

namespace Gd32.Wifi

open List

/-! ### What the timeouts see -/

/-- Whether a request starts a scan. -/
def DriverReq.isScan : DriverReq → Bool
  | scanSet _ => true
  | scanSetWithSsid _ _ => true
  | _ => false

/-- The scans the machine has started. -/
def Mgmt.scans (m : Mgmt) : ℕ := m.driver.countP DriverReq.isScan

/-- What the timeouts see of the interface. -/
@[ext] structure Clocks where
  wvifType : WvifType
  state : ConnState
  retryCount : ℕ
  retryLimit : ℕ
  /-- How often `mgmt_connect_retry` is pending. -/
  retry : ℕ
  /-- How often `mgmt_link_status_polling` is pending. -/
  link : ℕ
  /-- How often `mgmt_dhcp_polling` is pending. -/
  dhcp : ℕ
  scans : ℕ

/-- What the timeouts see of `m`. -/
def clocks (m : Mgmt) : Clocks :=
  { wvifType := m.wvifType
    state := m.sm.state
    retryCount := m.sm.retryCount
    retryLimit := m.sm.retryLimit
    retry := m.timeout.count .connectRetry
    link := m.timeout.count .linkStatusPolling
    dhcp := m.timeout.count .dhcpPolling
    scans := m.scans }

/-! ### What the functions do to it -/

theorem count_cancel_self (t : MgmtTimer) (l : List MgmtTimer) :
    (l.filter fun t' => t' ≠ t).count t = 0 := by
  rw [count_eq_zero]
  simp

@[simp] theorem clocks_waitPost (k : WaitKind) (r : ℕ) (m : Mgmt) :
    clocks (waitPost k r m) = clocks m := rfl

@[simp] theorem clocks_mgmtPostConnDone (r : ℕ) (m : Mgmt) :
    clocks (mgmtPostConnDone r m) = clocks m := by
  rw [mgmtPostConnDone]
  split <;> rfl

@[simp] theorem clocks_mgmtPostScanDone (r : ℕ) (m : Mgmt) :
    clocks (mgmtPostScanDone r m) = clocks m := by
  rw [mgmtPostScanDone]
  split <;> rfl

@[simp] theorem clocks_eloopMessageSend (msg : Message) (m : Mgmt) :
    clocks (eloopMessageSend msg m).2 = clocks m := rfl

@[simp] theorem clocks_eloopEventSend (ev : MgmtEvent) (m : Mgmt) :
    clocks (eloopEventSend ev m).2 = clocks m := rfl

@[simp] theorem clocks_mgmtLinkIsOngoing (m : Mgmt) : clocks (mgmtLinkIsOngoing m) = clocks m := by
  rfl

@[simp] theorem clocks_mgmtPreroamRollback (m : Mgmt) :
    clocks (mgmtPreroamRollback m) = clocks m := by
  rw [mgmtPreroamRollback]
  split <;> rfl

@[simp] theorem clocks_takeStaCfg (m : Mgmt) : clocks (takeStaCfg m) = clocks m := by
  rw [takeStaCfg]
  split <;> rfl

@[simp] theorem clocks_wifiNetlinkConnectReq (e : MgmtEnv) (m : Mgmt) :
    clocks (wifiNetlinkConnectReq e m).2 = clocks m := by
  rw [wifiNetlinkConnectReq]
  split <;> simp [clocks, Mgmt.scans, DriverReq.isScan]

@[simp] theorem clocks_wifiNetlinkJoinedApLoad (e : MgmtEnv) (m : Mgmt) :
    clocks (wifiNetlinkJoinedApLoad e m).2 = clocks m := by
  rw [wifiNetlinkJoinedApLoad]
  split <;> rfl

@[simp] theorem clocks_wifiVifReset (e : MgmtEnv) (t : WvifType) (m : Mgmt) :
    clocks (wifiVifReset e t m) = clocks m := by
  cases t <;> rfl

@[simp] theorem clocks_disconnectReq (m : Mgmt) :
    clocks (driverRequest .disconnectReq m) = clocks m := by
  simp [clocks, driverRequest, Mgmt.scans, DriverReq.isScan]

theorem clocks_scanReq {req : DriverReq} (h : req.isScan = true) (m : Mgmt) :
    clocks (driverRequest req m) = { clocks m with scans := m.scans + 1 } := by
  simp [clocks, driverRequest, Mgmt.scans, h]

theorem clocks_cancelDhcp (m : Mgmt) :
    clocks (timeoutCancel .dhcpPolling m) = { clocks m with dhcp := 0 } := by
  simp only [clocks, timeoutCancel, Mgmt.scans, Clocks.mk.injEq, count_cancel_self, true_and]
  simp

theorem clocks_cancelLink (m : Mgmt) :
    clocks (timeoutCancel .linkStatusPolling m) = { clocks m with link := 0 } := by
  simp only [clocks, timeoutCancel, Mgmt.scans, Clocks.mk.injEq, count_cancel_self, true_and]
  simp

theorem clocks_cancelRetry (m : Mgmt) :
    clocks (timeoutCancel .connectRetry m) = { clocks m with retry := 0 } := by
  simp only [clocks, timeoutCancel, Mgmt.scans, Clocks.mk.injEq, count_cancel_self, true_and]
  simp

@[simp] theorem clocks_enterIdle (m : Mgmt) :
    clocks (enterIdle m) =
      { clocks m with state := .idle, retry := 0, link := 0, dhcp := 0 } := by
  simp only [enterIdle, mgmtPostDisconnDone, clocks_waitPost, clocks_disconnectReq,
    clocks_cancelRetry, clocks_cancelLink, clocks_cancelDhcp]
  rfl

/-- A scan is started unless a retry is pending that will start one. -/
theorem clocks_enterScan (e : MgmtEnv) (m : Mgmt) :
    clocks (enterScan e m) =
      { clocks m with
        state := .scan
        link := 0
        dhcp := 0
        scans := m.scans + if m.sm.delayedConnectRetry then 0 else 1 } := by
  have hr : ∀ n : Mgmt, (scanReq n).isScan = true := by
    intro n
    rw [scanReq]
    split <;> rfl
  rcases hd : m.sm.delayedConnectRetry
  · rw [enterScan, if_neg (by simp [timeoutCancel, hd])]
    split
    · rw [clocks_scanReq (hr _), clocks_cancelLink, clocks_cancelDhcp]
      rfl
    · rw [clocks_eloopEventSend, clocks_scanReq (hr _), clocks_cancelLink, clocks_cancelDhcp]
      rfl
  · rw [enterScan, if_pos (by simp [timeoutCancel, hd]), clocks_cancelLink, clocks_cancelDhcp]
    rfl

@[simp] theorem clocks_enterConnect (e : MgmtEnv) (m : Mgmt) :
    clocks (enterConnect e m) = { clocks m with state := .connect } := by
  rw [enterConnect]
  split
  · rw [clocks_wifiNetlinkConnectReq]
    rfl
  · rw [clocks_eloopMessageSend, clocks_wifiNetlinkConnectReq]
    rfl

@[simp] theorem clocks_enterHandshake (m : Mgmt) :
    clocks (enterHandshake m) = { clocks m with state := .handshake } := rfl

@[simp] theorem clocks_enterState (s : ConnState) (m : Mgmt) :
    clocks (enterState s m) = { clocks m with state := s } := rfl

@[simp] theorem clocks_enterConnected (m : Mgmt) :
    clocks (enterConnected m) = { clocks m with state := .connected } := by
  have h : ∀ n : Mgmt, clocks (connectedAnswer n) = clocks n := by
    intro n
    rw [connectedAnswer]
    split
    · rfl
    · exact clocks_mgmtPostConnDone _ n
  exact h _

theorem clocks_registerDhcp (e : MgmtEnv) (m : Mgmt) :
    clocks (timeoutRegister e .dhcpPolling m) =
      { clocks m with dhcp := (clocks m).dhcp + if e.alloc then 1 else 0 } := by
  rw [timeoutRegister]
  rcases he : e.alloc <;> simp [clocks, Mgmt.scans]

theorem clocks_registerLink (e : MgmtEnv) (m : Mgmt) :
    clocks (timeoutRegister e .linkStatusPolling m) =
      { clocks m with link := (clocks m).link + if e.alloc then 1 else 0 } := by
  rw [timeoutRegister]
  rcases he : e.alloc <;> simp [clocks, Mgmt.scans]

theorem clocks_registerRetry (e : MgmtEnv) (m : Mgmt) :
    clocks (timeoutRegister e .connectRetry m) =
      { clocks m with retry := (clocks m).retry + if e.alloc then 1 else 0 } := by
  rw [timeoutRegister]
  rcases he : e.alloc <;> simp [clocks, Mgmt.scans]

/-- The callback of a retry is registered once. -/
theorem clocks_mgmtRegisterDelayedConnectRetry (e : MgmtEnv) (m : Mgmt) :
    clocks (mgmtRegisterDelayedConnectRetry e m) =
      { clocks m with
        retry := if (clocks m).retry = 0 then if e.alloc then 1 else 0 else (clocks m).retry } := by
  rw [mgmtRegisterDelayedConnectRetry]
  split
  · rename_i h
    have hr : (clocks m).retry ≠ 0 := fun h0 => count_eq_zero.mp h0 h
    rw [if_neg hr]
  · rename_i h
    have hr : (clocks m).retry = 0 := count_eq_zero.mpr h
    rw [clocks_registerRetry, if_pos hr, hr, zero_add]

@[simp] theorem clocks_allRetriesFailed (m : Mgmt) :
    clocks (allRetriesFailed m) =
      { clocks m with state := .idle, retry := 0, link := 0, dhcp := 0 } := by
  simp [allRetriesFailed]

/-- A link that has failed is tried again, later, or given up. No scan is started. -/
theorem clocks_linkFailed (e : MgmtEnv) (m : Mgmt) :
    clocks (linkFailed e m) =
      if 0 < m.sm.retryCount then
        { clocks m with
          state := .scan
          link := 0
          dhcp := 0
          retry := if (clocks m).retry = 0 then if e.alloc then 1 else 0 else (clocks m).retry }
      else { clocks m with state := .idle, retry := 0, link := 0, dhcp := 0 } := by
  simp only [linkFailed]
  split
  · rw [clocks_mgmtRegisterDelayedConnectRetry, clocks_enterScan]
    rfl
  · rw [clocks_allRetriesFailed]
    rfl

/-! ### Where callbacks may be pending -/

/-- The states between a `CONNECT_CMD` and its end. -/
def ConnState.attempting : ConnState → Bool
  | scan => true
  | connect => true
  | handshake => true
  | dhcp => true
  | _ => false

/-- Every callback is where it should be, and those with a guard are pending at most once. -/
structure Clocks.Ok (c : Clocks) : Prop where
  /-- Only the station machine goes beyond its first two states. -/
  sta : c.state ≠ .idle → c.state ≠ .wps → c.wvifType = .sta
  /-- `retry_count` is a `uint32_t`. -/
  bound : c.retryCount < 2 ^ 32
  /-- `mgmt_connect_retry` is pending at most once. -/
  retry : c.retry ≤ 1
  /-- While it is, a retry is left and an attempt is on. -/
  left : c.retry ≠ 0 → 1 ≤ c.retryCount ∧ c.state.attempting = true
  /-- `mgmt_link_status_polling` is pending in `CONNECTED` alone. -/
  link : c.link ≠ 0 → c.state = .connected
  /-- `mgmt_dhcp_polling` is pending at most once. -/
  dhcp : c.dhcp ≤ 1
  /-- It is pending in `DHCP`, and may be left over in `CONNECTED`. -/
  polling : c.dhcp ≠ 0 → c.state = .dhcp ∨ c.state = .connected

variable {c : Clocks}

theorem Clocks.Ok.toIdle (h : c.Ok) :
    { c with state := ConnState.idle, retry := 0, link := 0, dhcp := 0 : Clocks }.Ok where
  sta h' := absurd rfl h'
  bound := h.bound
  retry := Nat.zero_le _
  left h' := absurd rfl h'
  link h' := absurd rfl h'
  dhcp := Nat.zero_le _
  polling h' := absurd rfl h'

/-- Nothing is pending in the first two states. -/
theorem Clocks.Ok.none (h : c.Ok) (hs : c.state = .idle ∨ c.state = .wps) :
    c.retry = 0 ∧ c.link = 0 ∧ c.dhcp = 0 := by
  refine ⟨?_, ?_, ?_⟩
  · by_contra h0
    have := (h.left h0).2
    rcases hs with hs | hs <;> simp [hs, ConnState.attempting] at this
  · by_contra h0
    have := h.link h0
    rcases hs with hs | hs <;> simp [hs] at this
  · by_contra h0
    have := h.polling h0
    rcases hs with hs | hs <;> simp [hs] at this

/-- Entering `SCAN`. -/
theorem Clocks.Ok.toScan (h : c.Ok) (ht : c.wvifType = .sta) (n : ℕ) :
    { c with state := ConnState.scan, link := 0, dhcp := 0, scans := n : Clocks }.Ok where
  sta _ _ := ht
  bound := h.bound
  retry := h.retry
  left h' := ⟨(h.left h').1, rfl⟩
  link h' := absurd rfl h'
  dhcp := Nat.zero_le _
  polling h' := absurd rfl h'

/-- The retries may be set while no retry is pending. -/
theorem Clocks.Ok.retries (h : c.Ok) (h0 : c.retry = 0) {n : ℕ} (hn : n < 2 ^ 32) (k : ℕ) :
    { c with retryCount := n, retryLimit := k : Clocks }.Ok :=
  { h with bound := hn, left := fun h' => absurd h0 h' }

/-- Registering the callback of a retry in `SCAN`. -/
theorem Clocks.Ok.register (h : c.Ok) (hs : c.state = .scan) (hn : 0 < c.retryCount) (b : Bool) :
    { c with retry := if c.retry = 0 then if b then 1 else 0 else c.retry : Clocks }.Ok := by
  refine { h with retry := ?_, left := fun _ => ⟨hn, by rw [hs]; rfl⟩ }
  have := h.retry
  rcases b <;> simp <;> split <;> omega

/-! ### One step of the station machine -/

/-- What a step does that registers no polling of the link: everything stays where it should be,
and in an attempt each scan that is started takes a retry away. -/
structure Clocks.Next (c c' : Clocks) : Prop where
  ok : c'.Ok
  link : c'.link ≤ c.link
  budget : c.state.attempting = true → c'.scans ≤ c.scans + c.retryCount ∧
    (c'.state.attempting = true → c'.scans + c'.retryCount ≤ c.scans + c.retryCount)
  wps : c.state.attempting = true → c'.state ≠ .wps

theorem Clocks.Ok.stay (h : c.Ok) : c.Next c :=
  ⟨h, le_refl _, fun _ => ⟨Nat.le_add_right _ _, fun _ => le_refl _⟩,
    fun ha hw => by rw [hw] at ha; cases ha⟩

theorem Clocks.Ok.idle (h : c.Ok) :
    c.Next { c with state := .idle, retry := 0, link := 0, dhcp := 0 } :=
  ⟨h.toIdle, Nat.zero_le _, fun _ => ⟨Nat.le_add_right _ _, fun h' => by cases h'⟩,
    fun _ hw => by cases hw⟩

/-- From one state of an attempt to another. -/
theorem Clocks.Ok.forward (h : c.Ok) {s : ConnState} (ha : c.state.attempting = true)
    (hs : s.attempting = true) (hd : c.state ≠ .dhcp) : c.Next { c with state := s } := by
  have hst : c.wvifType = .sta := h.sta (by rintro h'; simp [h', ConnState.attempting] at ha)
    (by rintro h'; simp [h', ConnState.attempting] at ha)
  have hnc : c.state ≠ .connected := by
    rintro h'
    simp [h', ConnState.attempting] at ha
  refine ⟨{ h with sta := fun _ _ => hst, left := ?_, link := ?_, polling := ?_ }, le_refl _,
    fun _ => ⟨Nat.le_add_right _ _, fun _ => le_refl _⟩, ?_⟩
  · exact fun h' => ⟨(h.left h').1, hs⟩
  · exact fun h' => absurd (h.link h') hnc
  · intro h'
    rcases h.polling h' with h' | h'
    · exact absurd h' hd
    · exact absurd h' hnc
  · rintro - rfl
    cases hs

section Steps

variable {e : MgmtEnv} {m : Mgmt}

theorem next_linkFailed (h : (clocks m).Ok) (ha : m.sm.state.attempting = true) :
    (clocks m).Next (clocks (linkFailed e m)) := by
  have hst : (clocks m).wvifType = .sta :=
    h.sta (by rintro h'; rw [show m.sm.state = _ from h'] at ha; cases ha)
      (by rintro h'; rw [show m.sm.state = _ from h'] at ha; cases ha)
  rw [clocks_linkFailed]
  split
  · rename_i hn
    exact ⟨(h.toScan hst _).register rfl hn _, Nat.zero_le _,
      fun _ => ⟨Nat.le_add_right _ _, fun _ => le_refl _⟩, fun _ hw => by cases hw⟩
  · exact h.idle

theorem next_stepScan (h : (clocks m).Ok) (hs : m.sm.state = .scan) :
    (clocks m).Next (clocks (stepScan e m)) := by
  have ha : (clocks m).state.attempting = true := by
    show m.sm.state.attempting = true
    rw [hs]
    rfl
  have hd : (clocks m).state ≠ .dhcp := by
    show m.sm.state ≠ .dhcp
    rw [hs]
    simp
  rw [stepScan]
  split
  · simpa using h.stay
  · simpa using h.stay
  · simpa using h.idle
  · simpa using h.idle
  · rw [clocks_enterConnect]
    exact h.forward ha rfl hd
  · split
    · rename_i hn
      rw [clocks_mgmtRegisterDelayedConnectRetry]
      exact ⟨h.register hs hn _, le_refl _,
        fun _ => ⟨Nat.le_add_right _ _, fun _ => le_refl _⟩, h.stay.wps⟩
    · rw [clocks_allRetriesFailed]
      exact h.idle
  · exact h.stay

theorem next_stepConnect (h : (clocks m).Ok) (hs : m.sm.state = .connect) :
    (clocks m).Next (clocks (stepConnect e m)) := by
  have ha : m.sm.state.attempting = true := by rw [hs]; rfl
  have hd : (clocks m).state ≠ .dhcp := by
    show m.sm.state ≠ .dhcp
    rw [hs]
    simp
  rw [stepConnect]
  split
  · simpa using h.stay
  · simpa using h.stay
  · simpa using h.idle
  · exact h.forward ha rfl hd
  · exact next_linkFailed h ha
  · exact next_linkFailed h ha
  · exact h.stay

/-- A request to leave the access point changes nothing here. -/
theorem next_linkFailed_disconnectReq (h : (clocks m).Ok) (ha : m.sm.state.attempting = true) :
    (clocks m).Next (clocks (linkFailed e (driverRequest .disconnectReq m))) := by
  have h' : (clocks (driverRequest .disconnectReq m)).Ok := by rwa [clocks_disconnectReq]
  have := @next_linkFailed e _ h' ha
  rwa [clocks_disconnectReq] at this

/-- `mgmt_dhcp_polling` is not pending when `DHCP` is entered, so it is pending once after. -/
theorem next_stepHandshake (h : (clocks m).Ok) (hs : m.sm.state = .handshake) :
    (clocks m).Next (clocks (stepHandshake e m)) := by
  have ha : m.sm.state.attempting = true := by rw [hs]; rfl
  have hd : (clocks m).state ≠ .dhcp := by
    show m.sm.state ≠ .dhcp
    rw [hs]
    simp
  rw [stepHandshake]
  split
  · simpa using h.stay
  · simpa using h.stay
  · simpa using h.idle
  · exact next_linkFailed_disconnectReq h ha
  · exact next_linkFailed h ha
  · have h0 : (clocks m).dhcp = 0 := by
      by_contra h0
      rcases h.polling h0 with h' | h' <;> simp [clocks, hs] at h'
    obtain ⟨hok, hl, hb, hw⟩ := @Clocks.Ok.forward _ h .dhcp ha rfl hd
    rw [enterDhcp, clocks_registerDhcp]
    refine ⟨{ hok with dhcp := ?_, polling := fun _ => Or.inl rfl }, hl, hb, hw⟩
    show (clocks m).dhcp + _ ≤ 1
    split <;> omega
  · exact h.stay

theorem next_stepDhcp (h : (clocks m).Ok) (hs : m.sm.state = .dhcp) :
    (clocks m).Next (clocks (stepDhcp e m)) := by
  have ha : m.sm.state.attempting = true := by rw [hs]; rfl
  have hst : (clocks m).wvifType = .sta := h.sta (by simp [clocks, hs]) (by simp [clocks, hs])
  rw [stepDhcp]
  split
  · simpa using h.stay
  · simpa using h.stay
  · simpa using h.idle
  · rw [clocks_cancelRetry, clocks_enterConnected]
    refine ⟨{ h with
      sta := fun _ _ => hst, retry := Nat.zero_le _, left := fun h' => absurd rfl h'
      link := fun _ => rfl, polling := fun _ => Or.inr rfl }, le_refl _, fun _ => ?_,
      fun _ hw => by cases hw⟩
    exact ⟨Nat.le_add_right _ _, fun h' => by cases h'⟩
  · exact next_linkFailed_disconnectReq h ha
  · exact next_linkFailed_disconnectReq h ha
  · exact next_linkFailed h ha
  · exact h.stay

end Steps

/-! ### The other states -/

section Rest

variable {e : MgmtEnv} {m : Mgmt}

@[simp] theorem clocks_mgmtConnectRetryParamSet_false (m : Mgmt) :
    clocks (mgmtConnectRetryParamSet false m) =
      { clocks m with retryCount := 2, retryLimit := 3 } := rfl

@[simp] theorem clocks_mgmtConnectRetryParamSet_true (m : Mgmt) :
    clocks (mgmtConnectRetryParamSet true m) =
      { clocks m with retryCount := 99, retryLimit := 100 } := rfl

/-- `SCAN_CMD` starts at most a scan, which is none of an attempt. -/
theorem clocks_mgmtScanCmd (e : MgmtEnv) (m : Mgmt) :
    clocks (mgmtScanCmd e m) = { clocks m with scans := m.scans + 1 } := by
  rw [mgmtScanCmd]
  rcases hp : m.sm.param with _ | p
  · split
    · exact clocks_scanReq rfl m
    · rw [clocks_mgmtPostScanDone]
      exact clocks_scanReq rfl m
  · cases p
    all_goals
      split
      · exact clocks_scanReq rfl m
      · rw [clocks_mgmtPostScanDone]
        exact clocks_scanReq rfl m

theorem Clocks.Ok.scansDone (h : c.Ok) (n : ℕ) : { c with scans := n : Clocks }.Ok := { h with }

/-- A step outside of an attempt: only that everything stays where it should be matters. -/
theorem Clocks.Ok.outside {c' : Clocks} (h' : c'.Ok) (hl : c'.link ≤ c.link)
    (ha : c.state.attempting = false) : c.Next c' :=
  ⟨h', hl, fun h => absurd (ha.symm.trans h) (by simp), fun h => absurd (ha.symm.trans h) (by simp)⟩

theorem next_stepIdle (h : (clocks m).Ok) (hs : m.sm.state = .idle) (ht : m.wvifType = .sta) :
    (clocks m).Next (clocks (stepIdle e m)) := by
  have ha : (clocks m).state.attempting = false := by
    show m.sm.state.attempting = false
    rw [hs]
    rfl
  have h0 : (clocks m).retry = 0 := (h.none (Or.inl hs)).1
  rw [stepIdle]
  split
  · rw [clocks_mgmtScanCmd]
    exact (h.scansDone _).outside (le_refl _) ha
  · rw [clocks_enterScan]
    refine Clocks.Ok.outside ?_ (Nat.zero_le _) ha
    have := (h.retries h0 (show 2 < 2 ^ 32 by decide) 3).toScan ht
    simpa using this _
  · split
    · rw [clocks_enterScan]
      refine Clocks.Ok.outside ?_ (Nat.zero_le _) ha
      have := (h.retries h0 (show 99 < 2 ^ 32 by decide) 100).toScan ht
      simpa using this _
    · simpa using h.idle
  · simpa using h.stay
  · exact h.stay
  · exact h.stay

/-- The polling of the link is registered upon `ROAMING_START` and by itself alone. -/
theorem clocks_roamingStart (hev : m.sm.event = .roamingStart) :
    clocks (stepConnected e m) =
      { clocks m with
        link := (clocks m).link + if m.sm.preroamEnable ∧ e.alloc = true then 1 else 0 } := by
  rw [stepConnected, hev]
  rcases hp : m.sm.preroamEnable
  · simp
  · simp only [if_true, true_and]
    rw [clocks_registerLink]
    rfl

theorem clocks_mgmtConnectedScanDone (e : MgmtEnv) (m : Mgmt) :
    clocks (mgmtConnectedScanDone e m) = clocks m ∨
      clocks (mgmtConnectedScanDone e m) = { clocks m with link := 0 } := by
  rw [mgmtConnectedScanDone]
  split
  · exact Or.inl rfl
  · split
    · exact Or.inl rfl
    · split
      · right
        rw [← clocks_cancelLink]
        split
        · split <;> rfl
        · rfl
      · left
        split <;> rfl

@[simp] theorem clocks_disconnectNotify (m : Mgmt) : clocks (disconnectNotify m) = clocks m := by
  rw [disconnectNotify]
  split
  · exact clocks_disconnectReq m
  · rfl

theorem next_connectedDisconnect (h : (clocks m).Ok) (hs : m.sm.state = .connected) :
    (clocks m).Next (clocks (connectedDisconnect e m)) := by
  have ht : (clocks m).wvifType = .sta := h.sta (by simp [clocks, hs]) (by simp [clocks, hs])
  have ha : (clocks m).state.attempting = false := by
    show m.sm.state.attempting = false
    rw [hs]
    rfl
  have h0 : (clocks m).retry = 0 := by
    by_contra h0
    exact absurd (h.left h0).2 (by rw [ha]; simp)
  simp only [connectedDisconnect]
  split
  · split
    · rw [clocks_enterScan, clocks_mgmtConnectRetryParamSet_true, clocks_disconnectNotify]
      refine Clocks.Ok.outside ?_ (Nat.zero_le _) ha
      exact (h.retries h0 (show 99 < 2 ^ 32 by decide) 100).toScan ht _
    · rw [clocks_allRetriesFailed, clocks_mgmtConnectRetryParamSet_true, clocks_disconnectNotify]
      refine Clocks.Ok.outside ?_ (Nat.zero_le _) ha
      exact (h.retries h0 (show 99 < 2 ^ 32 by decide) 100).toIdle
  · rw [clocks_enterIdle, clocks_disconnectNotify]
    exact h.idle

theorem next_stepConnected (h : (clocks m).Ok) (hs : m.sm.state = .connected)
    (hev : m.sm.event ≠ .roamingStart) :
    (clocks m).Next (clocks (stepConnected e m)) := by
  have ht : (clocks m).wvifType = .sta := h.sta (by simp [clocks, hs]) (by simp [clocks, hs])
  have ha : (clocks m).state.attempting = false := by
    show m.sm.state.attempting = false
    rw [hs]
    rfl
  rw [stepConnected]
  split
  · rw [clocks_mgmtScanCmd]
    exact (h.scansDone _).outside (le_refl _) ha
  · rw [clocks_enterScan]
    refine Clocks.Ok.outside ?_ (Nat.zero_le _) ha
    have := (h.toIdle.retries rfl (show 2 < 2 ^ 32 by decide) 3).toScan ht
    simpa using this _
  · simpa using h.idle
  · rw [clocks_mgmtPostScanDone]
    split
    · rcases clocks_mgmtConnectedScanDone e m with hc | hc
      · rw [hc]
        exact h.stay
      · rw [hc]
        exact Clocks.Ok.outside { h with link := fun h' => absurd rfl h' } (Nat.zero_le _) ha
    · exact h.stay
  · simpa using h.stay
  · exact next_connectedDisconnect h hs
  · rename_i hev'
    exact absurd hev' hev
  · exact h.stay

end Rest

/-! ### Messages -/

section Messages

variable {e : MgmtEnv} {m : Mgmt}

/-- A step into one of the first two states with nothing pending. -/
theorem next_rest {c c' : Clocks} (hs : c'.state = .idle ∨ c'.state = .wps)
    (hr : c'.retry = 0) (hl : c'.link = 0) (hd : c'.dhcp = 0) (hn : c'.retryCount < 2 ^ 32)
    (hc : c'.scans = c.scans) (hw : c.state.attempting = true → c'.state ≠ .wps) :
    c.Next c' := by
  have ha : c'.state.attempting = false := by rcases hs with hs | hs <;> rw [hs] <;> rfl
  refine ⟨?_, by omega, fun _ => ⟨by omega, fun h' => by rw [ha] at h'; cases h'⟩, hw⟩
  constructor
  · intro h4 h5
    rcases hs with hs | hs
    · exact absurd hs h4
    · exact absurd hs h5
  · exact hn
  · omega
  · exact fun h' => absurd hr h'
  · exact fun h' => absurd hl h'
  · omega
  · exact fun h' => absurd hd h'

/-- The first message, and `INIT`, start the machine again. -/
theorem next_restart (m : Mgmt) :
    (clocks m).Next (clocks (enterIdle (mgmtConnectRetryParamSet false
      { m with sm := { SmData.zero with init := true, preroamEnable := true } }))) := by
  rw [clocks_enterIdle]
  exact next_rest (Or.inl rfl) rfl rfl rfl (show 2 < 2 ^ 32 by decide) rfl fun _ hw => by cases hw

/-- The station machine, a message other than `ROAMING_START` in `CONNECTED`. -/
theorem next_maintainConnectionStep (h : (clocks m).Ok) (ht : m.wvifType = .sta)
    (hev : m.sm.state = .connected → m.sm.event ≠ .roamingStart) :
    (clocks m).Next (clocks (maintainConnectionStep e m)) := by
  rw [maintainConnectionStep]
  split
  · exact next_restart m
  · rcases hs : m.sm.state with _ | _ | _ | _ | _ | _ | _
    · exact next_stepIdle h hs ht
    · exact h.stay
    · exact next_stepScan h hs
    · exact next_stepConnect h hs
    · exact next_stepHandshake h hs
    · exact next_stepDhcp h hs
    · exact next_stepConnected h hs (hev hs)

/-- Outside of the station mode the machine is in one of its first two states. -/
theorem Clocks.Ok.other (h : (clocks m).Ok) (ht : m.wvifType ≠ .sta) :
    m.sm.state = .idle ∨ m.sm.state = .wps := by
  by_contra hs
  exact ht (h.sta (fun h' => hs (Or.inl h')) (fun h' => hs (Or.inr h')))

/-- A step of one of the other two machines. -/
theorem Clocks.Ok.atRest (h : (clocks m).Ok) (hs : m.sm.state = .idle ∨ m.sm.state = .wps)
    {m' : Mgmt} (ht' : m'.timeout = m.timeout)
    (hs' : m'.sm.state = .idle ∨ m'.sm.state = .wps) (hn : m'.sm.retryCount < 2 ^ 32)
    (hd : m'.scans = m.scans) :
    (clocks m).Next (clocks m') := by
  obtain ⟨h1, h2, h3⟩ := h.none hs
  refine next_rest hs' ?_ ?_ ?_ hn hd fun ha => ?_
  · simpa only [clocks, ht'] using h1
  · simpa only [clocks, ht'] using h2
  · simpa only [clocks, ht'] using h3
  · have ha' : m.sm.state.attempting = true := ha
    rcases hs with hs | hs <;> rw [hs] at ha' <;> cases ha'

/-- A scan in `STARTED` of the access point or the monitor. -/
theorem next_startedScan (h : (clocks m).Ok) (hs : m.sm.state = .wps) :
    (clocks m).Next (clocks (startedScan e m)) := by
  have ha : (clocks m).state.attempting = false := by
    show m.sm.state.attempting = false
    rw [hs]
    rfl
  rw [startedScan]
  split
  · rw [clocks_mgmtScanCmd]
    exact (h.scansDone _).outside (le_refl _) ha
  · simpa using h.stay
  · simpa using h.stay
  · exact h.stay

theorem next_maintainSoftapStep (h : (clocks m).Ok) (ht : m.wvifType ≠ .sta) :
    (clocks m).Next (clocks (maintainSoftapStep e m)) := by
  have hs := h.other ht
  rw [maintainSoftapStep]
  split
  · exact h.atRest hs rfl (Or.inl rfl) (show 0 < 2 ^ 32 by decide) rfl
  · split
    · split
      · split
        · exact h.atRest hs rfl (Or.inr rfl) h.bound rfl
        · exact h.atRest hs rfl (Or.inl rfl) h.bound rfl
      · exact h.stay
    · rename_i hw
      split
      · exact h.atRest hs rfl (Or.inl rfl) h.bound rfl
      · exact next_startedScan h hw
    · exact h.stay

theorem next_maintainMonitorStep (h : (clocks m).Ok) (ht : m.wvifType ≠ .sta) :
    (clocks m).Next (clocks (maintainMonitorStep e m)) := by
  have hs := h.other ht
  rw [maintainMonitorStep]
  split
  · exact h.atRest hs rfl (Or.inl rfl) (show 0 < 2 ^ 32 by decide) rfl
  · split
    · split
      · split
        · exact h.atRest hs rfl (Or.inr rfl) h.bound rfl
        · exact h.atRest hs rfl (Or.inl rfl) h.bound rfl
      · exact h.stay
    · rename_i hw
      exact next_startedScan h hw
    · exact h.stay

/-- After the machine of the mode that is left has been reset nothing is pending. -/
theorem clocks_resetMachine (h : (clocks m).Ok) :
    clocks (resetMachine m.wvifType m) =
      { clocks m with
        state := (resetMachine m.wvifType m).sm.state, retry := 0, link := 0, dhcp := 0 } := by
  rcases ht : m.wvifType
  · obtain ⟨h1, h2, h3⟩ := h.none (h.other (by rw [ht]; simp))
    ext <;> first | rfl | assumption
  · rw [resetMachine, clocks_enterIdle]
    rfl
  · obtain ⟨h1, h2, h3⟩ := h.none (h.other (by rw [ht]; simp))
    ext <;> first | rfl | assumption
  · obtain ⟨h1, h2, h3⟩ := h.none (h.other (by rw [ht]; simp))
    ext <;> first | rfl | assumption

/-- **A switch of the mode leaves nothing pending.** -/
theorem next_mgmtSwitchMode (h : (clocks m).Ok) :
    (clocks m).Next (clocks (mgmtSwitchMode e m)) := by
  have hc := clocks_resetMachine h
  have hs : (resetMachine m.wvifType m).sm.state = .idle ∨
      (resetMachine m.wvifType m).sm.state = .wps := by
    rcases ht : m.wvifType
    · exact h.other (by rw [ht]; simp)
    · exact Or.inl rfl
    · exact Or.inl rfl
    · exact Or.inl rfl
  set r := resetMachine m.wvifType m with hr
  have hv := clocks_wifiVifReset e m.wvifType r
  rw [hc] at hv
  have hstate : (wifiVifReset e m.wvifType r).sm.state = r.sm.state := congrArg Clocks.state hv
  have hcount : (wifiVifReset e m.wvifType r).sm.retryCount = m.sm.retryCount :=
    congrArg Clocks.retryCount hv
  have hretry := congrArg Clocks.retry hv
  have hlink := congrArg Clocks.link hv
  have hdhcp := congrArg Clocks.dhcp hv
  have hscans := congrArg Clocks.scans hv
  have hb : (wifiVifReset e m.wvifType r).sm.retryCount < 2 ^ 32 := by
    rw [hcount]
    exact h.bound
  have hidle : m.sm.state.attempting = true → r.sm.state = .idle := by
    intro ha
    have ht : m.wvifType = .sta := h.sta (fun h' => by
        rw [show m.sm.state = _ from h'] at ha
        cases ha) fun h' => by
        rw [show m.sm.state = _ from h'] at ha
        cases ha
    rw [hr, ht]
    rfl
  have hw : m.sm.state.attempting = true → (wifiVifReset e m.wvifType r).sm.state ≠ .wps := by
    intro ha
    rw [hstate, hidle ha]
    simp
  rw [mgmtSwitchMode]
  split
  · exact h.stay
  · split
    · exact next_rest (by rw [← hstate] at hs; exact hs) hretry hlink hdhcp hb hscans hw
    · split
      · exact next_rest (Or.inl rfl) hretry hlink hdhcp (show 2 < 2 ^ 32 by decide) hscans
          fun _ h' => by cases h'
      · exact next_rest (Or.inl rfl) hretry hlink hdhcp hb hscans fun _ h' => by cases h'
      · exact next_rest (Or.inl rfl) hretry hlink hdhcp hb hscans fun _ h' => by cases h'
      · exact next_rest (by rw [← hstate] at hs; exact hs) hretry hlink hdhcp hb hscans hw

end Messages

/-! ### Steps and runs -/

section Runs

variable {e : MgmtEnv} {m m' : Mgmt}

/-- Whether a message registers the polling of the link. -/
def roams (msg : Message) (m : Mgmt) : Prop :=
  msg.event = .roamingStart ∧ m.wvifType = .sta ∧ m.sm.init = true ∧ m.sm.state = .connected

/-- A message that does not start roaming. -/
theorem next_dispatch {msg : Message} (h : (clocks m).Ok) (hr : ¬roams msg m) :
    (clocks m).Next (clocks (wifiMgmtCbRunStateMachine e msg m)) := by
  have hok : (clocks (takeMessage msg m)).Ok := h
  show (clocks (takeMessage msg m)).Next (clocks (runStateMachine e (takeMessage msg m)))
  rw [runStateMachine]
  split
  · exact next_mgmtSwitchMode hok
  · split
    · rename_i ht
      rcases hi : m.sm.init
      · rw [maintainConnectionStep, if_pos (Or.inl (show (takeMessage msg m).sm.init = false from hi))]
        exact next_restart _
      · exact next_maintainConnectionStep hok ht fun hs hev => hr ⟨hev, ht, hi, hs⟩
    · rename_i ht
      exact next_maintainSoftapStep hok (by rw [ht]; simp)
    · rename_i ht
      exact next_maintainMonitorStep hok (by rw [ht]; simp)
    · exact hok.stay

/-- The message that does. -/
theorem clocks_roams {msg : Message} (hr : roams msg m) :
    clocks (wifiMgmtCbRunStateMachine e msg m) =
      { clocks m with
        link := (clocks m).link + if m.sm.preroamEnable ∧ e.alloc = true then 1 else 0 } := by
  obtain ⟨hev, ht, hi, hs⟩ := hr
  have hev' : (takeMessage msg m).sm.event = .roamingStart := hev
  have hstep : runStateMachine e (takeMessage msg m) = stepConnected e (takeMessage msg m) := by
    rw [runStateMachine, if_neg (by rw [hev']; simp),
      show (takeMessage msg m).wvifType = .sta from ht]
    simp only [maintainConnectionStep]
    rw [if_neg (by simp [hev', show (takeMessage msg m).sm.init = true from hi]),
      show (takeMessage msg m).sm.state = .connected from hs]
  show clocks (runStateMachine e (takeMessage msg m)) = _
  rw [hstep, clocks_roamingStart hev']
  rfl

/-- One timeout of a kind is taken from the list. -/
theorem count_pop {t : MgmtTimer} (ht : t ∈ m.timeout) :
    m.timeout.count t = (m.timeout.erase t).count t + 1 := by
  have h1 := count_pos_iff.mpr ht
  rw [count_erase_self]
  omega

/-- The polling of the address runs, and may register itself again. -/
theorem next_dhcpPolling (h : (clocks m).Ok) (ht : .dhcpPolling ∈ m.timeout) :
    (clocks m).Next (clocks (mgmtDhcpPolling e
      { m with timeout := m.timeout.erase .dhcpPolling })) := by
  set n : Mgmt := { m with timeout := m.timeout.erase .dhcpPolling } with hn
  have hcnt : (clocks m).dhcp = (clocks n).dhcp + 1 := count_pop ht
  have hc : clocks n = { clocks m with dhcp := (clocks n).dhcp } := by
    simp [clocks, hn, Mgmt.scans, count_erase_of_ne]
  have hpol := h.polling (by omega)
  have hone := h.dhcp
  have key : ∀ k : ℕ, k ≤ 1 → (clocks m).Next { clocks n with dhcp := k } := by
    intro k hk
    rw [hc]
    exact ⟨{ h with dhcp := hk, polling := fun _ => hpol }, le_refl _,
      fun _ => ⟨Nat.le_add_right _ _, fun _ => le_refl _⟩, h.stay.wps⟩
  rw [mgmtDhcpPolling]
  split
  · exact key (clocks n).dhcp (by omega)
  · split
    · rw [clocks_registerDhcp]
      refine key _ ?_
      show (clocks n).dhcp + _ ≤ 1
      split <;> omega
    · exact key (clocks n).dhcp (by omega)

/-- The polling of the link runs, in `CONNECTED`, and may register itself again. -/
theorem next_linkStatusPolling (h : (clocks m).Ok) (ht : .linkStatusPolling ∈ m.timeout) :
    (clocks m).Next (clocks (mgmtLinkStatusPolling e
      { m with timeout := m.timeout.erase .linkStatusPolling })) := by
  set n : Mgmt := { m with timeout := m.timeout.erase .linkStatusPolling } with hn
  have hcnt : (clocks m).link = (clocks n).link + 1 := count_pop ht
  have hc : clocks n = { clocks m with link := (clocks n).link } := by
    simp [clocks, hn, Mgmt.scans, count_erase_of_ne]
  have hs := h.link (by omega)
  have ha : (clocks m).state.attempting = false := by rw [hs]; rfl
  have key : ∀ k l : ℕ, k ≤ (clocks m).link →
      (clocks m).Next { clocks n with link := k, scans := l } := by
    intro k l hk
    rw [hc]
    exact Clocks.Ok.outside { h with link := fun _ => hs } hk ha
  have hscan : ∃ l, clocks (linkPollingScan n) = { clocks n with scans := l } := by
    rw [linkPollingScan]
    split
    · refine ⟨n.scans + 1, clocks_scanReq ?_ _⟩
      split <;> rfl
    · exact ⟨n.scans, rfl⟩
  obtain ⟨l, hl⟩ := hscan
  have htick : clocks (linkPollingTick (linkPollingScan n)) = { clocks n with scans := l } := hl
  rw [mgmtLinkStatusPolling]
  split
  · split
    · exact key (clocks n).link (clocks n).scans (by omega)
    · rw [clocks_registerLink, htick]
      refine key _ _ ?_
      show (clocks n).link + _ ≤ _
      split <;> omega
  · exact key (clocks n).link (clocks n).scans (by omega)

/-- **A retry takes one of the retries left and starts one scan.** -/
theorem clocks_connectRetry (h : (clocks m).Ok) (ht : .connectRetry ∈ m.timeout) :
    clocks (mgmtConnectRetry e { m with timeout := m.timeout.erase .connectRetry }) =
      { clocks m with
        state := .scan
        retry := 0
        link := 0
        dhcp := 0
        retryCount := m.sm.retryCount - 1
        scans := m.scans + 1 } := by
  have hcnt : (clocks m).retry = (m.timeout.erase .connectRetry).count .connectRetry + 1 :=
    count_pop ht
  have hleft := (h.left (by omega)).1
  have hone := h.retry
  rw [mgmtConnectRetry, clocks_enterScan]
  have hsub : u32sub m.sm.retryCount 1 = m.sm.retryCount - 1 := u32sub_of_le hleft h.bound
  have h0 : (m.timeout.erase .connectRetry).count .connectRetry = 0 := by omega
  simp [clocks, Mgmt.scans, hsub, h0]

theorem next_connectRetry (h : (clocks m).Ok) (ht : .connectRetry ∈ m.timeout) :
    (clocks m).Next (clocks (mgmtConnectRetry e
      { m with timeout := m.timeout.erase .connectRetry })) := by
  have hleft := h.left (by
    show m.timeout.count .connectRetry ≠ 0
    rw [count_pop ht]
    exact Nat.succ_ne_zero _)
  have hcount : 1 ≤ m.sm.retryCount := hleft.1
  have hst : (clocks m).wvifType = .sta :=
    h.sta (by rintro h'; rw [h'] at hleft; cases hleft.2)
      (by rintro h'; rw [h'] at hleft; cases hleft.2)
  rw [clocks_connectRetry h ht]
  refine ⟨⟨fun _ _ => hst, ?_, Nat.zero_le _, fun h' => absurd rfl h', fun h' => absurd rfl h',
    Nat.zero_le _, fun h' => absurd rfl h'⟩, Nat.zero_le _, fun _ => ?_, fun _ hw => by cases hw⟩
  · exact lt_of_le_of_lt (Nat.sub_le _ _) h.bound
  · constructor
    · show m.scans + 1 ≤ m.scans + m.sm.retryCount
      omega
    · intro _
      show m.scans + 1 + (m.sm.retryCount - 1) ≤ m.scans + m.sm.retryCount
      omega

theorem clocks_scanSend (b : Bool) (ssid : Option (List ℕ)) (call : Option ℕ) (m : Mgmt) :
    clocks (scanSend b ssid call m).2 = clocks m := by
  rw [scanSend]
  split <;> rfl

/-- Steps that do not take `ROAMING_START` in `CONNECTED`. -/
theorem next_mgmtStep {i : MgmtStep} {u : Mgmt} (h : (clocks m).Ok) (hi : mgmtStep i m = some u)
    (hr : ∀ e msg, i = .dispatch e → m.queue.head? = some msg → ¬roams msg m) :
    (clocks m).Next (clocks u) := by
  cases i with
  | send msg =>
    simp only [mgmtStep, Option.some.injEq] at hi
    exact hi ▸ h.stay
  | scan b ssid =>
    simp only [mgmtStep, Option.some.injEq] at hi
    rw [← hi, clocks_scanSend]
    exact h.stay
  | fetch =>
    rw [mgmtStep] at hi
    split at hi
    · cases hi
    · simp only [Option.some.injEq] at hi
      exact hi ▸ h.stay
  | dispatch e =>
    rw [mgmtStep] at hi
    split at hi
    · cases hi
    · rename_i msg queue hq
      simp only [Option.some.injEq] at hi
      have hn : ¬roams msg { m with queue := queue } := hr e msg rfl (by rw [hq]; rfl)
      have hok : (clocks { m with queue := queue }).Ok := h
      exact hi ▸ next_dispatch hok hn
  | expire t e =>
    rw [mgmtStep] at hi
    split at hi
    · rename_i ht
      simp only [Option.some.injEq] at hi
      cases t
      · exact hi ▸ next_dhcpPolling h ht
      · exact hi ▸ next_linkStatusPolling h ht
      · exact hi ▸ next_connectRetry h ht
    · cases hi

/-- A step that takes it. -/
theorem clocks_mgmtStep_roams {e : MgmtEnv} {msg : Message} {u : Mgmt}
    (hi : mgmtStep (.dispatch e) m = some u) (hq : m.queue.head? = some msg) (hr : roams msg m) :
    clocks u =
      { clocks m with
        link := (clocks m).link + if m.sm.preroamEnable ∧ e.alloc = true then 1 else 0 } := by
  rw [mgmtStep] at hi
  split at hi
  · cases hi
  · rename_i msg' queue hq'
    rw [hq'] at hq
    simp only [List.head?_cons, Option.some.injEq] at hq
    simp only [Option.some.injEq] at hi
    have hr' : roams msg' { m with queue := queue } := hq ▸ hr
    exact hi ▸ clocks_roams hr'

/-- **Every callback stays where it should be**, whatever happens. -/
theorem ok_mgmtStep {i : MgmtStep} {u : Mgmt} (h : (clocks m).Ok)
    (hi : mgmtStep i m = some u) : (clocks u).Ok := by
  by_cases hr : ∀ e msg, i = .dispatch e → m.queue.head? = some msg → ¬roams msg m
  · exact (next_mgmtStep h hi hr).ok
  · simp only [not_forall, not_not] at hr
    obtain ⟨e, msg, rfl, hq, hr⟩ := hr
    rw [clocks_mgmtStep_roams hi hq hr]
    exact { h with link := fun _ => hr.2.2.2 }

end Runs

/-! ### The discipline -/

/-- Every callback is pending at most once, a retry only while one is left, the polling of the
link only in `CONNECTED`, and in `IDLE` none of them is. -/
structure Disciplined (m : Mgmt) : Prop where
  /-- `mgmt_connect_retry` is pending at most once. -/
  retryOnce : m.timeout.count .connectRetry ≤ 1
  retryLeft : .connectRetry ∈ m.timeout → 1 ≤ m.sm.retryCount
  /-- So the callback does not take `retry_count` below zero. -/
  noWrap : ∀ e u, mgmtStep (.expire .connectRetry e) m = some u →
    u.sm.retryCount + 1 = m.sm.retryCount
  /-- `mgmt_link_status_polling` is pending at most once. -/
  linkOnce : m.timeout.count .linkStatusPolling ≤ 1
  /-- It is pending in `CONNECTED` alone. -/
  linkConnected : .linkStatusPolling ∈ m.timeout → m.sm.state = .connected
  /-- `mgmt_dhcp_polling` is pending at most once. -/
  dhcpOnce : m.timeout.count .dhcpPolling ≤ 1
  /-- None of the three is pending in `IDLE`. -/
  idleNone : m.sm.state = .idle → ∀ t, t ∉ m.timeout

/-- The station machine takes a `CONNECT_CMD` in `IDLE`. -/
def acceptsConnect (msg : Message) (m : Mgmt) : Prop :=
  msg.event = .connectCmd ∧ m.wvifType = .sta ∧ m.sm.init = true ∧ m.sm.state = .idle

/-- From the `CONNECT_CMD` that is taken in `IDLE` to the next entry to `IDLE` or `CONNECTED`, at
most `retry_limit` scans are started. -/
def ScanBudget (m : Mgmt) : Prop :=
  ∀ e msg m₁ u, m.queue.head? = some msg → acceptsConnect msg m →
    mgmtStep (.dispatch e) m = some m₁ →
    Machine.Reach mgmtStep (fun t _ => t.sm.state ≠ .idle ∧ t.sm.state ≠ .connected) m₁ u →
    u.scans ≤ m.scans + m₁.sm.retryLimit

/-- The step does not take `ROAMING_START`, in `CONNECTED` with roaming enabled, while
`mgmt_link_status_polling` is pending. -/
def MgmtStep.Guarded (m : Mgmt) (i : MgmtStep) : Prop :=
  ∀ e msg, i = .dispatch e → m.queue.head? = some msg → roams msg m →
    m.sm.preroamEnable = true → e.alloc = true → .linkStatusPolling ∉ m.timeout

section Discipline

variable {e : MgmtEnv} {m m₁ u : Mgmt} {msg : Message}

theorem disciplined_iff (h : (clocks m).Ok) :
    Disciplined m ↔ m.timeout.count .linkStatusPolling ≤ 1 := by
  refine ⟨fun hd => hd.linkOnce, fun hl => ?_⟩
  constructor
  · exact h.retry
  · intro ht
    exact (h.left fun h0 => count_eq_zero.mp h0 ht).1
  · intro e u hu
    rw [mgmtStep] at hu
    split at hu
    · rename_i ht
      simp only [Option.some.injEq] at hu
      have hleft : 1 ≤ m.sm.retryCount := (h.left fun h0 => count_eq_zero.mp h0 ht).1
      have hc := congrArg Clocks.retryCount (clocks_connectRetry (e := e) h ht)
      rw [← hu]
      show (mgmtConnectRetry e _).sm.retryCount + 1 = _
      rw [show (mgmtConnectRetry e { m with timeout := m.timeout.erase .connectRetry }).sm.retryCount =
        m.sm.retryCount - 1 from hc]
      omega
    · cases hu
  · exact hl
  · intro ht
    exact h.link fun h0 => count_eq_zero.mp h0 ht
  · exact h.dhcp
  · intro hs t ht
    obtain ⟨h1, h2, h3⟩ := h.none (Or.inl hs)
    cases t
    · exact count_eq_zero.mp h3 ht
    · exact count_eq_zero.mp h2 ht
    · exact count_eq_zero.mp h1 ht

/-- What taking a `CONNECT_CMD` does: the retries are set, and one scan is started. -/
theorem clocks_acceptsConnect (ha : acceptsConnect msg m)
    (hq : m.queue.head? = some msg) (hi : mgmtStep (.dispatch e) m = some m₁) :
    m₁.sm.state = .scan ∧ m₁.sm.retryCount = 2 ∧ m₁.sm.retryLimit = 3 ∧
      m₁.scans ≤ m.scans + 1 := by
  obtain ⟨hev, ht, hinit, hs⟩ := ha
  rw [mgmtStep] at hi
  split at hi
  · cases hi
  rename_i msg' queue hq'
  rw [hq'] at hq
  simp only [List.head?_cons, Option.some.injEq] at hq
  subst hq
  simp only [Option.some.injEq] at hi
  set n := takeMessage msg' { m with queue := queue } with hn
  have hstep : runStateMachine e n =
      enterScan e (mgmtConnectRetryParamSet false (takeStaCfg n)) := by
    have hev' : n.sm.event = .connectCmd := hev
    rw [runStateMachine, if_neg (by rw [hev']; simp), show n.wvifType = .sta from ht]
    simp only [maintainConnectionStep]
    rw [if_neg (by simp [hev', show n.sm.init = true from hinit]),
      show n.sm.state = .idle from hs]
    simp only [stepIdle, hev']
  have hc : clocks m₁ = clocks (enterScan e (mgmtConnectRetryParamSet false (takeStaCfg n))) := by
    rw [← hi, ← hstep]
    rfl
  have hsc : (mgmtConnectRetryParamSet false (takeStaCfg n)).scans = m.scans :=
    congrArg Clocks.scans (clocks_takeStaCfg n)
  rw [clocks_enterScan] at hc
  refine ⟨congrArg Clocks.state hc, congrArg Clocks.retryCount hc, congrArg Clocks.retryLimit hc, ?_⟩
  have := congrArg Clocks.scans hc
  simp only [clocks, hsc] at this
  rw [this]
  split <;> omega

/-- **Each scan of an attempt takes a retry away.** -/
theorem scanBudget (h : (clocks m).Ok) : ScanBudget m := by
  intro e msg m₁ u hq ha hi hreach
  obtain ⟨hs, hcount, hlimit, hscans⟩ := clocks_acceptsConnect ha hq hi
  let I : Mgmt → Prop := fun t => (clocks t).Ok ∧ t.sm.state ≠ .wps ∧ t.scans ≤ m.scans + 3 ∧
    (t.sm.state.attempting = true → t.scans + t.sm.retryCount ≤ m.scans + 3)
  have hinv : I u := by
    refine hreach.invariant ⟨ok_mgmtStep h hi, by rw [hs]; simp, by omega, fun _ => by omega⟩ ?_
    rintro t v i ⟨hok, hwps, hle, hbud⟩ ⟨hidle, hconn⟩ hv
    have hatt : t.sm.state.attempting = true := by
      rcases ht : t.sm.state with _ | _ | _ | _ | _ | _ | _ <;>
        first | rfl | exact absurd ht hidle | exact absurd ht hwps | exact absurd ht hconn
    have hnext := next_mgmtStep hok hv fun _ _ _ _ hr => hconn hr.2.2.2
    obtain ⟨h1, h2⟩ := hnext.budget hatt
    have hb := hbud hatt
    have h1' : v.scans ≤ t.scans + t.sm.retryCount := h1
    refine ⟨hnext.ok, hnext.wps hatt, by omega, fun hatt' => ?_⟩
    have h2' : v.scans + v.sm.retryCount ≤ t.scans + t.sm.retryCount := h2 hatt'
    omega
  rw [hlimit]
  exact hinv.2.2.1

end Discipline

/-! ### Every run -/

theorem ok_init (autoConn : Bool) : (clocks (wifiManagementInit autoConn)).Ok where
  sta h' := absurd rfl h'
  bound := show 0 < 2 ^ 32 by decide
  retry := Nat.zero_le _
  left h' := absurd rfl h'
  link h' := absurd rfl h'
  dhcp := Nat.zero_le _
  polling h' := absurd rfl h'

/-- Answers of a firmware in which everything goes well. -/
def fairEnv : MgmtEnv :=
  { alloc := true, scanSet := 0, connectAp := some ⟨[], 1, 6, -40, false⟩, connectReq := 0
    connectCompleted := true, joinedAp := none, staticIp := false, addressObtained := true
    rssi := -80, rssiThresh := -70, candidate := none, targetAlloc := true, typeSet := true
    apStart := 0, monitorStart := 0, apLeft := StaCfg.zero }

/-- A message of the driver, or one with nothing but an event. -/
def plain (event : MgmtEvent) : Message := ⟨event, 0, none, none⟩

/-- The interface connects, and the signal of the access point falls twice. -/
def roamTwice : List MgmtStep :=
  [.dispatch fairEnv, .send ⟨.connectCmd, 0, some (.staCfg ⟨[104, 111], 0xFF, 0, false, true⟩), none⟩,
    .dispatch fairEnv, .send (plain .scanDone), .dispatch fairEnv, .send (plain .assocSuccess),
    .dispatch fairEnv, .send (plain .dhcpStart), .dispatch fairEnv,
    .expire .dhcpPolling fairEnv, .dispatch fairEnv, .send (plain .roamingStart),
    .send (plain .roamingStart), .dispatch fairEnv, .dispatch fairEnv]

end Gd32.Wifi
