import Gd32Firmware.Wifi.Callers
import Gd32Firmware.Wifi.Retries

/-!
# Whether a blocked caller is forgotten

A caller that blocks in `wifi_management_connect` or `wifi_management_scan` sleeps until the
management task clears its flag and posts an answer. So as long as a flag is set something must
still be on its way that will clear it: the command in the queue, the attempt, or the scan. That
is so as long as the machines do not drop it (`none_forgotten`), and they do drop it in
a number of places (`MgmtStep.Answering` lists them): a `SCAN_CMD` that is refused
because a link is ongoing is answered as if it were a connect, for one.
-/

namespace Gd32.Wifi

variable {k : WaitKind} {ret : ℤ}

/-! ### Nobody is forgotten -/

/-- The states between a `CONNECT_CMD` and its end. -/
def linking (m : Mgmt) : Prop :=
  m.wvifType = .sta ∧ (m.sm.state = .scan ∨ m.sm.state = .connect ∨ m.sm.state = .handshake ∨
    m.sm.state = .dhcp)

/-- Whether a message with this event is queued. -/
def Mgmt.queued (ev : MgmtEvent) (m : Mgmt) : Prop := ∃ msg ∈ m.queue, msg.event = ev

/-- How many answers of a kind wait to be fetched. -/
def Mgmt.answers (k : WaitKind) (m : Mgmt) : ℕ := m.wait.countP fun w => w.evt = k

/-- The interface, and whether a scan that was started for a `SCAN_CMD` has not reported yet. -/
structure Watched where
  m : Mgmt
  scanning : Bool

/-- The scan after a step from `m` to `u`: it is on once the driver has taken a request upon
`SCAN_CMD`, and off once it has reported. -/
def scanningAfter (i : MgmtStep) (m u : Mgmt) (b : Bool) : Bool :=
  match i with
  | .dispatch e =>
    match m.queue with
    | [] => b
    | msg :: _ =>
      if msg.event = .scanCmd then
        b || (decide (e.scanSet = 0) && decide (m.driver.length < u.driver.length))
      else if msg.event = .scanDone ∨ msg.event = .scanFail then false
      else b
  | _ => b

/-- One step. -/
def watchedStep (i : MgmtStep) (s : Watched) : Option Watched :=
  (mgmtStep i s.m).map fun u => ⟨u, scanningAfter i s.m u s.scanning⟩

/-- Whoever blocks has something to wait for. -/
structure NoneForgotten (s : Watched) : Prop where
  /-- A blocked connect: an attempt is on, or the command is queued. -/
  conn : s.m.cfg.connBlocked = true → linking s.m ∨ s.m.queued .connectCmd
  /-- A blocked scan: the command is queued, or the scan has not reported. -/
  scan : s.m.sm.scanBlocked = true → s.m.queued .scanCmd ∨ s.scanning = true

/-- A flag that is cleared is answered, once. -/
structure ClearedAnswered (m u : Mgmt) : Prop where
  conn : m.cfg.connBlocked = true → u.cfg.connBlocked = false →
    u.answers .connDone = m.answers .connDone + 1
  scan : m.sm.scanBlocked = true → u.sm.scanBlocked = false →
    u.answers .scanDone = m.answers .scanDone + 1

/-! ### What has to be avoided -/

/-- The machine takes a `SCAN_CMD` in its state. -/
def takesScan (m : Mgmt) : Prop :=
  m.wvifType = .sta ∧ (m.sm.state = .idle ∨ m.sm.state = .connected) ∨
    (m.wvifType = .ap ∨ m.wvifType = .monitor) ∧ m.sm.state = .started

/-- The machine answers the caller of a scan upon the report of one. -/
def reportsScan (ev : MgmtEvent) (m : Mgmt) : Prop :=
  takesScan m ∧ ¬(m.wvifType = .sta ∧ m.sm.state = .idle ∧ ev = .scanFail)

/-- The message takes the station out of an attempt without an answer. -/
def cancels (msg : Message) (m : Mgmt) : Prop :=
  msg.event = .switchModeCmd ∧ WvifType.ofNumber (msg.reason % 2 ^ 16) ≠ .sta ∨
    msg.event = .disconnectCmd ∨ msg.event = .init ∨ m.sm.state = .scan ∧ msg.event = .connectFail

/-- The message is a failure in a state of an attempt that takes it as one, with no retries
left. -/
def givesUp (msg : Message) (m : Mgmt) : Prop :=
  m.sm.retryCount = 0 ∧
    (m.sm.state = .scan ∧ msg.event = .scanFail ∨
      (m.sm.state = .connect ∨ m.sm.state = .handshake ∨ m.sm.state = .dhcp) ∧
        (msg.event = .connectFail ∨ msg.event = .disconnect) ∨
      m.sm.state = .dhcp ∧ msg.event = .dhcpFail)

/-- The message ends a blocked connect with an answer. -/
def endsConnect (msg : Message) (m : Mgmt) : Prop :=
  msg.event = .scanCmd ∨ msg.event = .connectCmd ∨ m.sm.state = .dhcp ∧ msg.event = .dhcpSuccess ∨
    givesUp msg m

/-- The message ends a blocked scan with an answer. -/
def endsScan (e : MgmtEnv) (msg : Message) (m : Mgmt) : Prop :=
  msg.event = .scanCmd ∧ takesScan m ∧ e.scanSet ≠ 0 ∨
    (msg.event = .scanDone ∨ msg.event = .scanFail) ∧ reportsScan msg.event m

/-- The message is answered as it should be. -/
structure AnsweringMessage (e : MgmtEnv) (msg : Message) (rest : List Message) (m : Mgmt) :
    Prop where
  /-- With a connect blocked, the attempt is not cancelled. -/
  cancel : m.cfg.connBlocked = true → ¬cancels msg m
  /-- Every answer to a flag finds room in the wait queue. -/
  room : m.cfg.connBlocked = true ∧ endsConnect msg m ∨
    m.sm.scanBlocked = true ∧ endsScan e msg m → m.wait.length < mgmtWaitQueueMsgSize
  /-- With a scan blocked, a `SCAN_CMD` is taken, and a report is passed on, unless the command
  of the caller is still queued. -/
  scan : m.sm.scanBlocked = true → (∀ msg' ∈ rest, msg'.event ≠ .scanCmd) →
    (msg.event = .scanCmd → takesScan m) ∧
      (msg.event = .scanDone ∨ msg.event = .scanFail → reportsScan msg.event m)
  /-- With a flag set, the machine is not set up anew. -/
  setup : m.cfg.connBlocked = true ∨ m.sm.scanBlocked = true → msg.event ≠ .switchModeCmd →
    m.sm.init = true ∧ msg.event ≠ .init
  /-- When the mode of the access point is left, its data leave no flag behind. -/
  left : msg.event = .switchModeCmd → m.wvifType = .ap → e.apLeft.connBlocked = false

/-- The step answers whom it should: a message as above; and a scan is asked for while no other
blocked scan is unanswered, or again with a block and room in the queue. -/
def MgmtStep.Answering (s : Watched) : MgmtStep → Prop
  | .dispatch e => ∀ msg rest, s.m.queue = msg :: rest → AnsweringMessage e msg rest s.m
  | .scan blocked _ =>
    s.m.sm.scanBlocked = true → blocked = true ∧ s.m.queue.length < mgmtTaskQueueSize
  | _ => True

/-! ### Counting answers -/

/-- How many answers of a kind wait to be fetched. -/
def Callers.answers (k : WaitKind) (c : Callers) : ℕ := c.wait.countP fun w => w.evt = k

theorem answers_post {r : ℕ} {c : Callers}
    (h : c.wait.length < mgmtWaitQueueMsgSize) : (c.post k r).answers k = c.answers k + 1 := by
  simp [Callers.post, Callers.answers, pushWait, h]

theorem answers_post_of_ne {k' : WaitKind} (hk : k' ≠ k) (r : ℕ) (c : Callers) :
    (c.post k' r).answers k = c.answers k := by
  simp only [Callers.post, Callers.answers, pushWait]
  split
  · simp [hk]
  · rfl

theorem answers_postConn {r : ℕ} {c : Callers} (hc : c.conn = true)
    (h : c.wait.length < mgmtWaitQueueMsgSize) :
    (c.postConn r).conn = false ∧ (c.postConn r).answers .connDone = c.answers .connDone + 1 := by
  rw [Callers.postConn, if_pos hc]
  exact ⟨rfl, answers_post (c := { c with conn := false }) h⟩

theorem answers_postScan {r : ℕ} {c : Callers} (hc : c.scan = true)
    (h : c.wait.length < mgmtWaitQueueMsgSize) :
    (c.postScan r).scan = false ∧ (c.postScan r).answers .scanDone = c.answers .scanDone + 1 := by
  rw [Callers.postScan, if_pos hc]
  exact ⟨rfl, answers_post (c := { c with scan := false }) h⟩

@[simp] theorem conn_post (k : WaitKind) (r : ℕ) (c : Callers) : (c.post k r).conn = c.conn := rfl

@[simp] theorem scan_post (k : WaitKind) (r : ℕ) (c : Callers) : (c.post k r).scan = c.scan := rfl

@[simp] theorem scan_postConn (r : ℕ) (c : Callers) : (c.postConn r).scan = c.scan := by
  rw [Callers.postConn]
  split <;> rfl

@[simp] theorem conn_postScan (r : ℕ) (c : Callers) : (c.postScan r).conn = c.conn := by
  rw [Callers.postScan]
  split <;> rfl

theorem conn_postConn (r : ℕ) (c : Callers) : (c.postConn r).conn = false := by
  rw [Callers.postConn]
  split
  · rfl
  · rename_i h
    exact Bool.eq_false_iff.mpr h

/-! ### The table, for a flag that is set -/

section Table

variable {e : MgmtEnv} {m : Mgmt} {msg : Message} {r : ℕ} {p : Option MgmtParam} {c : Callers}

/-- A connect becomes blocked by being accepted. -/
theorem Effect.conn_of_apply {eff : Effect} (h : ∀ b, eff ≠ .accept b)
    (hc : (eff.apply r p c).conn = true) : c.conn = true := by
  cases eff with
  | accept b => exact absurd rfl (h b)
  | giveUp => exact absurd hc (by simp [Effect.apply, Callers.toIdle, Callers.enter, conn_postConn])
  | refuse => exact absurd hc (by simp [Effect.apply])
  | connected => exact absurd hc (by simp [Effect.apply, conn_postConn])
  | scanAnswer r => simpa [Effect.apply] using hc
  | _ => exact hc

/-- A blocked scan is answered, or forgotten in a set-up. -/
theorem Effect.scan_apply {eff : Effect} (h : ∀ r, eff ≠ .scanAnswer r) (h1 : eff ≠ .restart)
    (h2 : eff ≠ .reset) : (eff.apply r p c).scan = c.scan := by
  cases eff with
  | scanAnswer r => exact absurd rfl (h r)
  | restart => exact absurd rfl h1
  | reset => exact absurd rfl h2
  | accept b =>
    rcases p with _ | _ | _ | _ <;> cases b <;> rfl
  | giveUp => simp [Effect.apply, Callers.toIdle, Callers.enter]
  | connected => simp [Effect.apply, Callers.enter]
  | _ => rfl

/-- The attempt goes on, or its caller is answered. -/
def Onward (msg : Message) (m : Mgmt) (eff : Effect) : Prop :=
  eff = .nothing ∨
    (∃ s, eff = .enter s ∧ (s = .scan ∨ s = .connect ∨ s = .handshake ∨ s = .dhcp)) ∨
    endsConnect msg m ∧ (eff = .refuse ∨ eff = .giveUp ∨ eff = .connected)

theorem onward_refuse (h : msg.event = .scanCmd ∨ msg.event = .connectCmd) :
    Onward msg m .refuse := by
  refine Or.inr (Or.inr ⟨?_, Or.inl rfl⟩)
  rcases h with h | h
  · exact Or.inl h
  · exact Or.inr (Or.inl h)

/-- The end of a link is a retry or the end of the attempt. -/
theorem linkEffect_eq (h : (m.sm.state = .connect ∨ m.sm.state = .handshake ∨ m.sm.state = .dhcp) ∧
    (msg.event = .connectFail ∨ msg.event = .disconnect) ∨
      m.sm.state = .dhcp ∧ msg.event = .dhcpFail) :
    linkEffect m = .enter .scan ∨ givesUp msg m ∧ linkEffect m = .giveUp := by
  rw [linkEffect]
  split
  · exact Or.inl rfl
  · exact Or.inr ⟨⟨by omega, Or.inr h⟩, rfl⟩

theorem onward_linkEffect
    (h : (m.sm.state = .connect ∨ m.sm.state = .handshake ∨ m.sm.state = .dhcp) ∧
      (msg.event = .connectFail ∨ msg.event = .disconnect) ∨
        m.sm.state = .dhcp ∧ msg.event = .dhcpFail) : Onward msg m (linkEffect m) := by
  rcases linkEffect_eq h with he | ⟨hg, he⟩ <;> rw [he]
  · exact Or.inr (Or.inl ⟨.scan, rfl, Or.inl rfl⟩)
  · exact Or.inr (Or.inr ⟨Or.inr (Or.inr (Or.inr hg)), Or.inr (Or.inl rfl)⟩)

theorem onward_scanEffect (hs : m.sm.state = .scan) (hev : m.sm.event = msg.event)
    (hc : ¬cancels msg m) : Onward msg m (scanEffect m) := by
  rw [scanEffect]
  split <;> rename_i h <;> rw [hev] at h
  · exact onward_refuse (Or.inl h)
  · exact onward_refuse (Or.inr h)
  · exact absurd (Or.inr (Or.inl h)) hc
  · exact absurd (Or.inr (Or.inr (Or.inr ⟨hs, h⟩))) hc
  · exact Or.inr (Or.inl ⟨.connect, rfl, Or.inr (Or.inl rfl)⟩)
  · split
    · exact Or.inl rfl
    · refine Or.inr (Or.inr ⟨Or.inr (Or.inr (Or.inr ⟨by omega, ?_⟩)), Or.inr (Or.inl rfl)⟩)
      exact Or.inl ⟨hs, h⟩
  · exact Or.inl rfl

theorem onward_connectEffect (hs : m.sm.state = .connect) (hev : m.sm.event = msg.event)
    (hc : ¬cancels msg m) : Onward msg m (connectEffect m) := by
  rw [connectEffect]
  split <;> rename_i h <;> rw [hev] at h
  · exact onward_refuse (Or.inl h)
  · exact onward_refuse (Or.inr h)
  · exact absurd (Or.inr (Or.inl h)) hc
  · exact Or.inr (Or.inl ⟨.handshake, rfl, Or.inr (Or.inr (Or.inl rfl))⟩)
  · exact onward_linkEffect (Or.inl ⟨Or.inl hs, Or.inl h⟩)
  · exact onward_linkEffect (Or.inl ⟨Or.inl hs, Or.inr h⟩)
  · exact Or.inl rfl

theorem onward_handshakeEffect (hs : m.sm.state = .handshake) (hev : m.sm.event = msg.event)
    (hc : ¬cancels msg m) : Onward msg m (handshakeEffect m) := by
  rw [handshakeEffect]
  split <;> rename_i h <;> rw [hev] at h
  · exact onward_refuse (Or.inl h)
  · exact onward_refuse (Or.inr h)
  · exact absurd (Or.inr (Or.inl h)) hc
  · exact onward_linkEffect (Or.inl ⟨Or.inr (Or.inl hs), Or.inl h⟩)
  · exact onward_linkEffect (Or.inl ⟨Or.inr (Or.inl hs), Or.inr h⟩)
  · exact Or.inr (Or.inl ⟨.dhcp, rfl, Or.inr (Or.inr (Or.inr rfl))⟩)
  · exact Or.inl rfl

theorem onward_dhcpEffect (hs : m.sm.state = .dhcp) (hev : m.sm.event = msg.event)
    (hc : ¬cancels msg m) : Onward msg m (dhcpEffect m) := by
  rw [dhcpEffect]
  split <;> rename_i h <;> rw [hev] at h
  · exact onward_refuse (Or.inl h)
  · exact onward_refuse (Or.inr h)
  · exact absurd (Or.inr (Or.inl h)) hc
  · exact Or.inr (Or.inr ⟨Or.inr (Or.inr (Or.inl ⟨hs, h⟩)), Or.inr (Or.inr rfl)⟩)
  · exact onward_linkEffect (Or.inr ⟨hs, h⟩)
  · exact onward_linkEffect (Or.inl ⟨Or.inr (Or.inr hs), Or.inl h⟩)
  · exact onward_linkEffect (Or.inl ⟨Or.inr (Or.inr hs), Or.inr h⟩)
  · exact Or.inl rfl

/-- **In an attempt, a message that does not cancel it goes on with it or answers the caller.** -/
theorem onward_stepEffect (hl : linking m) (hev : m.sm.event = msg.event)
    (hi : m.sm.init = true) (hinit : msg.event ≠ .init) (hc : ¬cancels msg m) :
    Onward msg m (stepEffect e m) := by
  obtain ⟨ht, hs⟩ := hl
  have hne : ¬(m.sm.init = false ∨ m.sm.event = .init) := by simp [hi, hev, hinit]
  simp only [stepEffect, ht, stationEffect, if_neg hne]
  rcases hs with hs | hs | hs | hs
  · simpa only [hs] using onward_scanEffect hs hev hc
  · simpa only [hs] using onward_connectEffect hs hev hc
  · simpa only [hs] using onward_handshakeEffect hs hev hc
  · simpa only [hs] using onward_dhcpEffect hs hev hc

end Table

section Scans

variable {e : MgmtEnv} {m : Mgmt} {msg : Message} {r : ℕ} {b : Bool}

theorem scanCmdEffect_answer (h : scanCmdEffect e = .scanAnswer r) : e.scanSet ≠ 0 := by
  rw [scanCmdEffect] at h
  split at h
  · cases h
  · assumption

theorem linkEffect_ne_answer : linkEffect m ≠ .scanAnswer r := by
  rw [linkEffect]
  split <;> simp

theorem startEffect_ne_answer : startEffect k ret ≠ .scanAnswer r := by
  rw [startEffect]
  split <;> simp

theorem startEffect_ne_accept : startEffect k ret ≠ .accept b := by
  rw [startEffect]
  split <;> simp

theorem startedEffect_ne_accept : startedEffect e m ≠ .accept b := by
  rw [startedEffect]
  split
  · rw [scanCmdEffect]
    split <;> simp
  all_goals simp

/-- In `STARTED` a scan is answered as in the station mode. -/
theorem startedEffect_answer (hs : m.sm.state = .started)
    (ht : m.wvifType = .ap ∨ m.wvifType = .monitor) (hev : m.sm.event = msg.event)
    (h : startedEffect e m = .scanAnswer r) : endsScan e msg m := by
  have htakes : takesScan m := Or.inr ⟨ht, hs⟩
  have hsta : ¬(m.wvifType = .sta ∧ m.sm.state = .idle ∧ msg.event = .scanFail) := by
    rintro ⟨h1, -, -⟩
    rcases ht with ht | ht <;> rw [ht] at h1 <;> cases h1
  rw [startedEffect] at h
  split at h <;> rename_i h'
  · exact Or.inl ⟨hev ▸ h', htakes, scanCmdEffect_answer h⟩
  · exact Or.inr ⟨Or.inl (hev ▸ h'), htakes, hsta⟩
  · exact Or.inr ⟨Or.inr (hev ▸ h'), htakes, hsta⟩
  · cases h

/-- **The caller of a scan is answered upon a message that should answer it alone.** -/
theorem endsScan_of_answer (hev : m.sm.event = msg.event)
    (h : stepEffect e m = .scanAnswer r) : endsScan e msg m := by
  rcases ht : m.wvifType
  · simp [stepEffect, ht] at h
  · simp only [stepEffect, ht, stationEffect] at h
    split at h
    · cases h
    rcases hs : m.sm.state <;> simp only [hs] at h
    · have htakes : takesScan m := Or.inl ⟨ht, Or.inl hs⟩
      rw [idleEffect] at h
      split at h <;> rename_i h'
      · exact Or.inl ⟨hev ▸ h', htakes, scanCmdEffect_answer h⟩
      · cases h
      · split at h <;> cases h
      · refine Or.inr ⟨Or.inl (hev ▸ h'), htakes, ?_⟩
        rintro ⟨-, -, hf⟩
        rw [← hev, h'] at hf
        cases hf
      · cases h
      · cases h
    · cases h
    · rw [scanEffect] at h
      split at h <;> first | cases h | (split at h <;> cases h)
    · rw [connectEffect] at h
      split at h <;> first | cases h | exact absurd h linkEffect_ne_answer
    · rw [handshakeEffect] at h
      split at h <;> first | cases h | exact absurd h linkEffect_ne_answer
    · rw [dhcpEffect] at h
      split at h <;> first | cases h | exact absurd h linkEffect_ne_answer
    · have htakes : takesScan m := Or.inl ⟨ht, Or.inr hs⟩
      have hconn : ¬(m.wvifType = .sta ∧ m.sm.state = .idle ∧ msg.event = .scanFail) := by
        rintro ⟨-, h1, -⟩
        rw [hs] at h1
        cases h1
      rw [connectedEffect] at h
      split at h <;> rename_i h'
      · exact Or.inl ⟨hev ▸ h', htakes, scanCmdEffect_answer h⟩
      · cases h
      · cases h
      · exact Or.inr ⟨Or.inl (hev ▸ h'), htakes, hconn⟩
      · exact Or.inr ⟨Or.inr (hev ▸ h'), htakes, hconn⟩
      · split at h <;> cases h
      · cases h
  · simp only [stepEffect, ht, softapEffect] at h
    split at h
    · cases h
    rcases hs : m.sm.state <;> simp only [hs] at h
    · split at h
      · exact absurd h startEffect_ne_answer
      · cases h
    · split at h
      · cases h
      · exact startedEffect_answer hs (Or.inl ht) hev h
    all_goals cases h
  · simp only [stepEffect, ht, monitorEffect] at h
    split at h
    · cases h
    rcases hs : m.sm.state <;> simp only [hs] at h
    · split at h
      · exact absurd h startEffect_ne_answer
      · cases h
    · exact startedEffect_answer hs (Or.inr ht) hev h
    all_goals cases h

/-- A connect is accepted by the station machine. -/
theorem sta_of_accept (h : stepEffect e m = .accept b) : m.wvifType = .sta := by
  rcases ht : m.wvifType
  · simp [stepEffect, ht] at h
  · rfl
  · simp only [stepEffect, ht, softapEffect] at h
    split at h
    · cases h
    rcases hs : m.sm.state <;> simp only [hs] at h
    · split at h
      · exact absurd h startEffect_ne_accept
      · cases h
    · split at h
      · cases h
      · exact absurd h startedEffect_ne_accept
    all_goals cases h
  · simp only [stepEffect, ht, monitorEffect] at h
    split at h
    · cases h
    rcases hs : m.sm.state <;> simp only [hs] at h
    · split at h
      · exact absurd h startEffect_ne_accept
      · cases h
    · exact absurd h startedEffect_ne_accept
    all_goals cases h

end Scans

section Scans

variable {e : MgmtEnv} {m : Mgmt} {ev : MgmtEvent}

/-- A `SCAN_CMD` is taken where it can be. -/
theorem stepEffect_scanCmd (hi : m.sm.init = true) (hev : m.sm.event = .scanCmd)
    (ht : takesScan m) : stepEffect e m = scanCmdEffect e := by
  rcases ht with ⟨ht, hs | hs⟩ | ⟨ht | ht, hs⟩
  · simp [stepEffect, ht, stationEffect, hi, hs, idleEffect, hev]
  · simp [stepEffect, ht, stationEffect, hi, hs, connectedEffect, hev]
  · simp [stepEffect, ht, softapEffect, hi, hs, hev, startedEffect]
  · simp [stepEffect, ht, monitorEffect, hi, hs, hev, startedEffect]

/-- A report is passed on where it can be. -/
theorem stepEffect_report (hi : m.sm.init = true) (hev : m.sm.event = ev)
    (hd : ev = .scanDone ∨ ev = .scanFail) (hr : reportsScan ev m) :
    ∃ r, stepEffect e m = .scanAnswer r := by
  obtain ⟨ht, hidle⟩ := hr
  rcases hd with rfl | rfl
  · refine ⟨scanSuccess, ?_⟩
    rcases ht with ⟨ht, hs | hs⟩ | ⟨ht | ht, hs⟩
    · simp [stepEffect, ht, stationEffect, hi, hs, idleEffect, hev]
    · simp [stepEffect, ht, stationEffect, hi, hs, connectedEffect, hev]
    · simp [stepEffect, ht, softapEffect, hi, hs, hev, startedEffect]
    · simp [stepEffect, ht, monitorEffect, hi, hs, hev, startedEffect]
  · refine ⟨scanFailed, ?_⟩
    rcases ht with ⟨ht, hs | hs⟩ | ⟨ht | ht, hs⟩
    · exact absurd ⟨ht, hs, rfl⟩ hidle
    · simp [stepEffect, ht, stationEffect, hi, hs, connectedEffect, hev]
    · simp [stepEffect, ht, softapEffect, hi, hs, hev, startedEffect]
    · simp [stepEffect, ht, monitorEffect, hi, hs, hev, startedEffect]

/-- Effects that set the machine up anew. -/
def Effect.setsUp (eff : Effect) : Prop := eff = .restart ∨ eff = .reset

theorem not_setsUp_scanCmdEffect : ¬(scanCmdEffect e).setsUp := by
  rw [scanCmdEffect]
  split <;> simp [Effect.setsUp]

theorem not_setsUp_startedEffect : ¬(startedEffect e m).setsUp := by
  rw [startedEffect]
  split
  · exact not_setsUp_scanCmdEffect
  all_goals simp [Effect.setsUp]

theorem not_setsUp_startEffect : ¬(startEffect k ret).setsUp := by
  rw [startEffect]
  split <;> simp [Effect.setsUp]

theorem not_setsUp_linkEffect : ¬(linkEffect m).setsUp := by
  rw [linkEffect]
  split <;> simp [Effect.setsUp]

/-- **A machine that runs is set up anew by `INIT` alone.** -/
theorem not_setsUp_stepEffect (hi : m.sm.init = true) (hev : m.sm.event ≠ .init) :
    ¬(stepEffect e m).setsUp := by
  have hne : ¬(m.sm.init = false ∨ m.sm.event = .init) := by simp [hi, hev]
  rcases ht : m.wvifType <;> simp only [stepEffect, ht, stationEffect, softapEffect,
    monitorEffect, if_neg hne]
  · simp [Effect.setsUp]
  · rcases m.sm.state <;> simp only []
    · rw [idleEffect]
      split
      · exact not_setsUp_scanCmdEffect
      · simp [Effect.setsUp]
      · split <;> simp [Effect.setsUp]
      all_goals simp [Effect.setsUp]
    · simp [Effect.setsUp]
    · rw [scanEffect]
      split <;> first | (split <;> simp [Effect.setsUp]) | simp [Effect.setsUp]
    · rw [connectEffect]
      split <;> first | exact not_setsUp_linkEffect | simp [Effect.setsUp]
    · rw [handshakeEffect]
      split <;> first | exact not_setsUp_linkEffect | simp [Effect.setsUp]
    · rw [dhcpEffect]
      split <;> first | exact not_setsUp_linkEffect | simp [Effect.setsUp]
    · rw [connectedEffect]
      split
      · exact not_setsUp_scanCmdEffect
      all_goals first | (split <;> simp [Effect.setsUp]) | simp [Effect.setsUp]
  · rcases m.sm.state <;> simp only []
    · split
      · exact not_setsUp_startEffect
      · simp [Effect.setsUp]
    · split
      · simp [Effect.setsUp]
      · exact not_setsUp_startedEffect
    all_goals simp [Effect.setsUp]
  · rcases m.sm.state <;> simp only []
    · split
      · exact not_setsUp_startEffect
      · simp [Effect.setsUp]
    · exact not_setsUp_startedEffect
    all_goals simp [Effect.setsUp]

theorem driver_mgmtPostScanDone (r : ℕ) : (mgmtPostScanDone r m).driver = m.driver := by
  rw [mgmtPostScanDone]
  split <;> rfl

/-- A `SCAN_CMD` that is taken goes to the driver. -/
theorem driver_scanCmd (hi : m.sm.init = true) (hev : m.sm.event = .scanCmd) (ht : takesScan m) :
    m.driver.length < (runStateMachine e m).driver.length := by
  have hdriver : ∀ m : Mgmt, m.driver.length < (mgmtScanCmd e m).driver.length := by
    intro m
    rw [mgmtScanCmd]
    split
    · simp [driverRequest]
    · simp [driver_mgmtPostScanDone, driverRequest]
  have hrun : runStateMachine e m = mgmtScanCmd e m := by
    rcases ht with ⟨ht, hs | hs⟩ | ⟨ht | ht, hs⟩
    · simp [runStateMachine, hev, ht, maintainConnectionStep, hi, hs, stepIdle]
    · simp [runStateMachine, hev, ht, maintainConnectionStep, hi, hs, stepConnected]
    · simp [runStateMachine, hev, ht, maintainSoftapStep, hi, hs, startedScan]
    · simp [runStateMachine, hev, ht, maintainMonitorStep, hi, hs, startedScan]
  exact hrun ▸ hdriver m

end Scans

/-! ### One step -/

/-- What is kept: with a connect blocked the attempt is on. -/
structure Kept (s : Watched) : Prop where
  conn : s.m.cfg.connBlocked = true → linking s.m
  scan : s.m.sm.scanBlocked = true → s.m.queued .scanCmd ∨ s.scanning = true

theorem Kept.noneForgotten {s : Watched} (h : Kept s) : NoneForgotten s :=
  ⟨fun hc => Or.inl (h.conn hc), h.scan⟩

theorem Mgmt.queued.mono {ev : MgmtEvent} {m u : Mgmt} (h : m.queued ev)
    (hq : m.queue ⊆ u.queue) : u.queued ev := by
  obtain ⟨msg, hm, he⟩ := h
  exact ⟨msg, hq hm, he⟩

theorem subset_send (msg : Message) (m : Mgmt) : m.queue ⊆ (eloopMessageSend msg m).2.queue := by
  show m.queue ⊆ pushQueue m.queue msg
  rw [pushQueue]
  split
  · exact List.subset_append_left _ _
  · exact List.Subset.refl _

theorem linking_congr {m u : Mgmt} (h : callers u = callers m) (hl : linking m) : linking u := by
  have ht : u.wvifType = m.wvifType := congrArg Callers.wvifType h
  have hs : u.sm.state = m.sm.state := congrArg Callers.state h
  rwa [linking, ht, hs]

section Apply

variable {e : MgmtEnv} {r : ℕ} {p : Option MgmtParam} {c : Callers} {eff : Effect}

/-- No step of a machine changes the mode. -/
theorem Effect.wvifType_apply : (eff.apply r p c).wvifType = c.wvifType := by
  have hconn : ∀ (k : ℕ) (c : Callers), (c.postConn k).wvifType = c.wvifType := by
    intro k c
    rw [Callers.postConn]
    split <;> rfl
  cases eff with
  | giveUp => exact hconn r c
  | connected => exact hconn _ _
  | scanAnswer k =>
    rw [Effect.apply, Callers.postScan]
    split <;> rfl
  | accept b => rcases p with _ | _ | _ | _ <;> cases b <;> rfl
  | _ => rfl

/-- A scan that is still blocked was blocked before, and is not answered. -/
theorem Effect.scan_of_apply (h : (eff.apply r p c).scan = true) :
    c.scan = true ∧ ∀ k, eff ≠ .scanAnswer k := by
  have hanswer : ∀ k, eff ≠ .scanAnswer k := by
    rintro k rfl
    rw [Effect.apply, Callers.postScan] at h
    split at h
    · cases h
    · contradiction
  refine ⟨?_, hanswer⟩
  by_cases h1 : eff = .restart
  · subst h1
    cases h
  by_cases h2 : eff = .reset
  · subst h2
    cases h
  · rwa [Effect.scan_apply hanswer h1 h2] at h

/-- A switch of the mode leaves a blocked scan alone. -/
theorem scan_switchMode (t : WvifType) : (c.switchMode e t).scan = c.scan := by
  have hleave : (c.leave e).scan = c.scan := by
    rw [Callers.leave]
    split <;> rfl
  rw [Callers.switchMode]
  split
  · rfl
  · exact hleave

/-- A connect is blocked after a switch of the mode only if there is nothing to switch. -/
theorem conn_switchMode {t : WvifType} (hsta : c.conn = true → c.wvifType = .sta)
    (hleft : c.wvifType = .ap → e.apLeft.connBlocked = false)
    (h : (c.switchMode e t).conn = true) : c.wvifType = t := by
  have hleave : (c.leave e).conn = false := by
    rw [Callers.leave]
    split
    · rfl
    · exact hleft ‹_›
    all_goals
      rw [← Bool.not_eq_true]
      intro hc
      simp_all [Callers.enter]
  rw [Callers.switchMode] at h
  split at h
  · assumption
  · exact absurd (hleave.symm.trans h) (by simp)

end Apply

section Dispatch

variable {e : MgmtEnv} {msg : Message} {rest : List Message} {m : Mgmt}

/-- The interface with `msg` taken from its queue. -/
def taken (msg : Message) (rest : List Message) (m : Mgmt) : Mgmt :=
  takeMessage msg { m with queue := rest }

/-- A message, while no connect is blocked or the attempt is on: the same holds after it, and a
flag that is cleared is answered. -/
theorem conn_runStateMachine (hk : m.cfg.connBlocked = true → linking m)
    (ha : AnsweringMessage e msg rest m) :
    ((runStateMachine e (taken msg rest m)).cfg.connBlocked = true →
      linking (runStateMachine e (taken msg rest m))) ∧
    (m.cfg.connBlocked = true → (runStateMachine e (taken msg rest m)).cfg.connBlocked = false →
      (runStateMachine e (taken msg rest m)).answers .connDone = m.answers .connDone + 1) := by
  have hrun := callers_runStateMachine e (taken msg rest m)
  generalize hu : runStateMachine e (taken msg rest m) = u at hrun ⊢
  by_cases hsw : msg.event = .switchModeCmd
  · rw [if_pos (show (taken msg rest m).sm.event = _ from hsw)] at hrun
    have hstay (ht : m.wvifType = WvifType.ofNumber (msg.reason % 2 ^ 16)) :
        callers u = callers (taken msg rest m) := by
      rw [hrun, Callers.switchMode]
      exact if_pos ht
    constructor
    · intro hc
      have ht : m.wvifType = WvifType.ofNumber (msg.reason % 2 ^ 16) := by
        refine conn_switchMode (c := callers (taken msg rest m)) (e := e)
          (fun hc => (hk hc).1) (ha.left hsw) ?_
        exact (congrArg Callers.conn hrun).symm.trans hc
      have hc' : m.cfg.connBlocked = true := (congrArg Callers.conn (hstay ht)).symm.trans hc
      exact linking_congr (hstay ht) (hk hc')
    · intro hc hc'
      have ht : WvifType.ofNumber (msg.reason % 2 ^ 16) = .sta := by
        by_contra hne
        exact ha.cancel hc (Or.inl ⟨hsw, hne⟩)
      have heq := congrArg Callers.conn (hstay ((hk hc).1.trans ht.symm))
      exact absurd (hc.symm.trans (heq.symm.trans hc')) (by simp)
  · rw [if_neg (show ¬(taken msg rest m).sm.event = _ from hsw)] at hrun
    have hon (hc : m.cfg.connBlocked = true) :
        Onward msg (taken msg rest m) (stepEffect e (taken msg rest m)) := by
      obtain ⟨hi, hne⟩ := ha.setup (Or.inl hc) hsw
      exact onward_stepEffect (hk hc) rfl hi hne (ha.cancel hc)
    have haccept (b : Bool) (hb : stepEffect e (taken msg rest m) = .accept b) :
        m.wvifType = .sta := sta_of_accept (m := taken msg rest m) hb
    generalize stepEffect e (taken msg rest m) = eff at hrun hon haccept
    have htype : u.wvifType = m.wvifType := by
      have h := congrArg Callers.wvifType hrun
      rwa [Effect.wvifType_apply] at h
    constructor
    · intro hc
      rw [show u.cfg.connBlocked = (callers u).conn from rfl, hrun] at hc
      by_cases hb : ∃ b, eff = .accept b
      · obtain ⟨b, rfl⟩ := hb
        refine ⟨htype.trans (haccept b rfl), Or.inl ?_⟩
        rw [show u.sm.state = (callers u).state from rfl, hrun]
        cases b <;> rfl
      · have hc' : m.cfg.connBlocked = true :=
          Effect.conn_of_apply (fun b hb' => hb ⟨b, hb'⟩) hc
        rcases hon hc' with rfl | ⟨s, rfl, hs⟩ | ⟨-, rfl | rfl | rfl⟩
        · exact linking_congr (m := taken msg rest m) hrun (hk hc')
        · refine ⟨htype.trans (hk hc').1, ?_⟩
          rw [show u.sm.state = s from congrArg Callers.state hrun]
          exact hs
        · exact absurd hc (by simp [Effect.apply])
        · exact absurd hc (by simp [Effect.apply, Callers.toIdle, Callers.enter, conn_postConn])
        · exact absurd hc (by simp [Effect.apply, conn_postConn])
    · intro hc hc'
      rw [show u.cfg.connBlocked = (callers u).conn from rfl, hrun] at hc'
      have hcount : u.answers .connDone = (eff.apply (taken msg rest m).sm.reason
          (taken msg rest m).sm.param (callers (taken msg rest m))).answers .connDone :=
        congrArg (Callers.answers .connDone) hrun
      rw [hcount]
      rcases hon hc with rfl | ⟨s, rfl, -⟩ | ⟨hends, hr⟩
      · exact absurd (hc.symm.trans hc') (by simp)
      · exact absurd (hc.symm.trans hc') (by simp)
      have hroom : m.wait.length < mgmtWaitQueueMsgSize := ha.room (Or.inl ⟨hc, hends⟩)
      rcases hr with rfl | rfl | rfl
      · exact answers_post (c := { callers (taken msg rest m) with conn := false }) hroom
      · rw [Effect.apply, Callers.toIdle, answers_post_of_ne (by simp)]
        exact (answers_postConn (c := callers (taken msg rest m)) hc hroom).2
      · exact (answers_postConn (c := { (callers (taken msg rest m)).enter .connected with
          connectedFor := (callers (taken msg rest m)).served }) hc hroom).2

end Dispatch

section Dispatch

variable {e : MgmtEnv} {msg : Message} {rest : List Message} {m : Mgmt}

/-- The same for a blocked scan; one that is still blocked is still on its way. -/
theorem scan_runStateMachine {b : Bool} (hqueue : m.queue = msg :: rest)
    (hk : m.sm.scanBlocked = true → m.queued .scanCmd ∨ b = true)
    (ha : AnsweringMessage e msg rest m) :
    ((runStateMachine e (taken msg rest m)).sm.scanBlocked = true →
      (runStateMachine e (taken msg rest m)).queued .scanCmd ∨
        scanningAfter (.dispatch e) m (runStateMachine e (taken msg rest m)) b = true) ∧
    (m.sm.scanBlocked = true → (runStateMachine e (taken msg rest m)).sm.scanBlocked = false →
      (runStateMachine e (taken msg rest m)).answers .scanDone = m.answers .scanDone + 1) := by
  have hrun := callers_runStateMachine e (taken msg rest m)
  have hqueued : rest ⊆ (runStateMachine e (taken msg rest m)).queue :=
    (queue_runStateMachine e (taken msg rest m)).subset
  have hdriver := driver_scanCmd (e := e) (m := taken msg rest m)
  generalize runStateMachine e (taken msg rest m) = u at hrun hqueued hdriver ⊢
  -- whoever is still blocked was blocked, and waits for what was on its way before
  have hwait (hb : m.sm.scanBlocked = true) (hrest : ∀ msg' ∈ rest, msg'.event ≠ .scanCmd)
      (hev : msg.event ≠ .scanCmd) : b = true := by
    rcases hk hb with ⟨msg', hm, he⟩ | hb
    · rw [hqueue] at hm
      rcases List.mem_cons.mp hm with rfl | hm
      · exact absurd he hev
      · exact absurd he (hrest msg' hm)
    · exact hb
  by_cases hsw : msg.event = .switchModeCmd
  · rw [if_pos (show (taken msg rest m).sm.event = _ from hsw)] at hrun
    have hscan : u.sm.scanBlocked = m.sm.scanBlocked :=
      (congrArg Callers.scan hrun).trans (scan_switchMode _)
    constructor
    · intro hb
      by_cases hrest : ∀ msg' ∈ rest, msg'.event ≠ .scanCmd
      · right
        rw [scanningAfter, hqueue]
        simpa [hsw] using hwait (hscan ▸ hb) hrest (by simp [hsw])
      · push Not at hrest
        obtain ⟨msg', hm, he⟩ := hrest
        exact Or.inl ⟨msg', hqueued hm, he⟩
    · intro hb hb'
      exact absurd (hb.symm.trans (hscan.symm.trans hb')) (by simp)
  · rw [if_neg (show ¬(taken msg rest m).sm.event = _ from hsw)] at hrun
    obtain ⟨eff, heff⟩ : ∃ eff, stepEffect e (taken msg rest m) = eff := ⟨_, rfl⟩
    rw [heff] at hrun
    have hscan : u.sm.scanBlocked = (eff.apply (taken msg rest m).sm.reason
        (taken msg rest m).sm.param (callers (taken msg rest m))).scan :=
      congrArg Callers.scan hrun
    constructor
    · intro hb
      rw [hscan] at hb
      obtain ⟨hb, hanswer⟩ := Effect.scan_of_apply hb
      by_cases hrest : ∀ msg' ∈ rest, msg'.event ≠ .scanCmd
      · right
        obtain ⟨hi, hne⟩ := ha.setup (Or.inr hb) hsw
        obtain ⟨htakes, hreports⟩ := ha.scan hb hrest
        rw [scanningAfter, hqueue]
        by_cases hcmd : msg.event = .scanCmd
        · have hset : e.scanSet = 0 := by
            by_contra hset
            refine hanswer scanStartFail ?_
            rw [← heff, stepEffect_scanCmd (m := taken msg rest m) hi hcmd (htakes hcmd),
              scanCmdEffect, if_neg hset]
          have hd : m.driver.length < u.driver.length := hdriver hi hcmd (htakes hcmd)
          simp [hcmd, hset, hd]
        · have hreport : ¬(msg.event = .scanDone ∨ msg.event = .scanFail) := by
            intro hd
            obtain ⟨r, hr⟩ := stepEffect_report (e := e) (m := taken msg rest m) hi rfl hd
              (hreports hd)
            exact hanswer r (heff.symm.trans hr)
          simpa only [if_neg hcmd, if_neg hreport] using hwait hb hrest hcmd
      · push Not at hrest
        obtain ⟨msg', hm, he⟩ := hrest
        exact Or.inl ⟨msg', hqueued hm, he⟩
    · intro hb hb'
      obtain ⟨hi, hne⟩ := ha.setup (Or.inr hb) hsw
      have hsetsUp := not_setsUp_stepEffect (e := e) (m := taken msg rest m) hi hne
      rw [heff] at hsetsUp
      by_cases hanswer : ∃ r, eff = .scanAnswer r
      · obtain ⟨r, rfl⟩ := hanswer
        have hends : endsScan e msg m := endsScan_of_answer (m := taken msg rest m) rfl heff
        have hroom := ha.room (Or.inr ⟨hb, hends⟩)
        have hcount : u.answers .scanDone =
            ((callers (taken msg rest m)).postScan r).answers .scanDone :=
          congrArg (Callers.answers .scanDone) hrun
        rw [hcount]
        exact (answers_postScan (c := callers (taken msg rest m)) hb hroom).2
      · rw [hscan, Effect.scan_apply (fun r hr => hanswer ⟨r, hr⟩)
          (fun h => hsetsUp (Or.inl h)) (fun h => hsetsUp (Or.inr h))] at hb'
        exact absurd (hb.symm.trans hb') (by simp)

end Dispatch

/-- **One step keeps everybody waiting for something, and answers whom it releases.** -/
theorem kept_watchedStep {i : MgmtStep} {s u : Watched} (h : Kept s) (ha : i.Answering s)
    (hi : watchedStep i s = some u) : Kept u ∧ ClearedAnswered s.m u.m := by
  obtain ⟨v, hv, rfl⟩ := Option.map_eq_some_iff.mp hi
  have hsame (hc : callers v = callers s.m) (hq : s.m.queue ⊆ v.queue)
      (hb : scanningAfter i s.m v s.scanning = s.scanning) :
      Kept ⟨v, scanningAfter i s.m v s.scanning⟩ ∧ ClearedAnswered s.m v := by
    have hconn : v.cfg.connBlocked = s.m.cfg.connBlocked := congrArg Callers.conn hc
    have hscan : v.sm.scanBlocked = s.m.sm.scanBlocked := congrArg Callers.scan hc
    refine ⟨⟨fun hf => linking_congr hc (h.conn (hconn ▸ hf)), fun hf => ?_⟩, ⟨?_, ?_⟩⟩
    · rw [hb]
      exact (h.scan (hscan ▸ hf)).imp_left fun h => h.mono hq
    · exact fun h1 h2 => absurd (h1.symm.trans (hconn.symm.trans h2)) (by simp)
    · exact fun h1 h2 => absurd (h1.symm.trans (hscan.symm.trans h2)) (by simp)
  cases i with
  | send msg =>
    cases hv
    exact hsame rfl (subset_send msg s.m) rfl
  | scan blocked ssid =>
    cases hv
    have hconn : (scanSend blocked ssid none s.m).2.cfg = s.m.cfg := by
      rw [scanSend]
      split <;> rfl
    have hlink (hl : linking s.m) : linking (scanSend blocked ssid none s.m).2 := by
      rw [scanSend]
      split <;> exact hl
    -- a command that fits into the queue is there to wait for; one that does not clears the flag
    by_cases hroom : s.m.queue.length < mgmtTaskQueueSize
    · have hsend : scanSend blocked ssid none s.m = (0,
          { s.m with
            sm := { s.m.sm with scanBlocked := blocked }
            queue := s.m.queue ++ [⟨.scanCmd, 0, ssid.map .ssid, none⟩] }) := by
        simp [scanSend, eloopMessageSend, pushQueue, hroom]
      refine ⟨⟨fun hf => hlink (h.conn (by rwa [← hconn])), fun _ => Or.inl ?_⟩, ⟨?_, ?_⟩⟩
      · rw [hsend]
        exact ⟨⟨.scanCmd, 0, ssid.map .ssid, none⟩, by simp, rfl⟩
      · exact fun h1 h2 => absurd (h1.symm.trans ((congrArg StaCfg.connBlocked hconn).symm.trans h2))
          (by simp)
      · intro h1 h2
        rw [hsend] at h2
        exact absurd ((ha h1).1.symm.trans h2) (by simp)
    · have hfail : (scanSend blocked ssid none s.m).2.sm.scanBlocked = false := by
        simp [scanSend, eloopMessageSend, hroom]
      refine ⟨⟨fun hf => hlink (h.conn (by rwa [← hconn])), fun hf => ?_⟩, ⟨?_, ?_⟩⟩
      · exact absurd (hf.symm.trans hfail) (by simp)
      · exact fun h1 h2 => absurd (h1.symm.trans ((congrArg StaCfg.connBlocked hconn).symm.trans h2))
          (by simp)
      · exact fun h1 _ => absurd (ha h1).2 hroom
  | fetch =>
    rcases hw : s.m.wait with _ | ⟨w, wait⟩
    · simp [mgmtStep, hw] at hv
    · simp only [mgmtStep, hw, Option.some.injEq] at hv
      subst hv
      refine ⟨⟨h.conn, h.scan⟩, ⟨?_, ?_⟩⟩
      · exact fun h1 h2 => absurd (h1.symm.trans h2) (by simp)
      · exact fun h1 h2 => absurd (h1.symm.trans h2) (by simp)
  | dispatch e =>
    rcases hqueue : s.m.queue with _ | ⟨msg, rest⟩
    · simp [mgmtStep, hqueue] at hv
    · simp only [mgmtStep, hqueue, Option.some.injEq] at hv
      subst hv
      have hmsg := ha msg rest hqueue
      obtain ⟨hc, hc'⟩ := conn_runStateMachine h.conn hmsg
      obtain ⟨hb, hb'⟩ := scan_runStateMachine hqueue h.scan hmsg
      exact ⟨⟨hc, hb⟩, ⟨hc', hb'⟩⟩
  | expire t e =>
    simp only [mgmtStep] at hv
    split at hv
    · cases hv
      have hc := callers_mgmtTimeout e { s.m with timeout := s.m.timeout.erase t } t
      have hq : s.m.queue ⊆ _ :=
        (queue_mgmtTimeout e { s.m with timeout := s.m.timeout.erase t } t).subset
      by_cases ht : t = .connectRetry
      · rw [if_pos ht] at hc
        generalize mgmtTimeout e t { s.m with timeout := s.m.timeout.erase t } = v at hc hq ⊢
        have hconn : v.cfg.connBlocked = s.m.cfg.connBlocked := congrArg Callers.conn hc
        have hscan : v.sm.scanBlocked = s.m.sm.scanBlocked := congrArg Callers.scan hc
        refine ⟨⟨fun hf => ⟨?_, Or.inl (congrArg Callers.state hc)⟩, fun hf => ?_⟩, ⟨?_, ?_⟩⟩
        · exact (congrArg Callers.wvifType hc).trans (h.conn (hconn ▸ hf)).1
        · exact (h.scan (hscan ▸ hf)).imp_left fun h => h.mono hq
        · exact fun h1 h2 => absurd (h1.symm.trans (hconn.symm.trans h2)) (by simp)
        · exact fun h1 h2 => absurd (h1.symm.trans (hscan.symm.trans h2)) (by simp)
      · rw [if_neg ht] at hc
        exact hsame hc hq rfl
    · cases hv

/-! ### Every run -/

/-- The interface after `wifi_management_init`, with no scan on. -/
def watchedInit (autoConn : Bool) : Watched := ⟨wifiManagementInit autoConn, false⟩

theorem kept_init (autoConn : Bool) : Kept (watchedInit autoConn) where
  conn h := by cases h
  scan h := by cases h

/-- A scan is asked for, with a block, while the interface looks for its access point. -/
def scanWhileLinking : List MgmtStep :=
  [.dispatch fairEnv, .send ⟨.connectCmd, 0, some (.staCfg ⟨[104, 111], 0xFF, 0, false, false⟩), none⟩,
    .dispatch fairEnv, .scan true none, .dispatch fairEnv]

end Gd32.Wifi
