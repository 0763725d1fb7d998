import Gd32Firmware.Wifi.OwnAnswers

/-!
# The result of a blocked connect

`wifi_management_connect` returns the reason of the `CONN_DONE` it fetches, and 0 is success. The
reason of a failure goes through three hands: the place that sees the failure, the message about
it, and `sm->reason`, which every message overwrites. A scan or an address that fails is reported
by a message without a reason, so with the retries used up the caller reads that it is connected
(`Wifi.connect_sound` says when it does not).
-/

namespace Gd32

variable {b : Bool} {a : AppCall} {i : WorldStep} {n : ℕ}

namespace Wifi

/-! ### The claim -/

/-- The events that say that an attempt has failed. -/
def failureEvent (ev : MgmtEvent) : Prop :=
  ev = .scanFail ∨ ev = .connectFail ∨ ev = .disconnect ∨ ev = .dhcpFail

/-- A blocked connect that returns 0 returns after `CONNECTED` was entered with its command
taken. -/
def ReturnsConnected (s : World) : Prop :=
  ∀ a ssid password, s.app = some a → a.call = .connect ssid password true → a.code = .ret 0 →
    atLeast a.number s.m.connectedFor

/-- A step that ends the attempt of a blocked caller in `IDLE`, for it has failed, is about to
post a `CONN_DONE` with a reason other than 0; and a `CONN_DONE` that is posted is in the queue. -/
structure Reported (s : World) (i : WorldStep) (u : World) : Prop where
  ends : ∀ msg rest, (∃ e, i = .dispatch e) → s.m.queue = msg :: rest → s.m.cfg.connBlocked = true →
    linking s.m → failureEvent msg.event → u.m.sm.state = .idle →
    ∃ w ∈ u.posting, w.evt = .connDone ∧ w.reason ≠ 0
  posted : ∀ w ws, i = .post → s.posting = w :: ws → w.evt = .connDone → w ∈ u.m.wait

/-- With a connect blocked, no attempt is given up upon a message without a reason, or left upon
a `CONNECT_FAIL` that comes in `SCAN`; no connection is there before the command that waits for
one is taken, or is still being reported when the flush ends; and a `CONN_DONE` finds room. -/
def WorldStep.Telling (s : World) : WorldStep → Prop
  | .dispatch _ => ∀ msg rest, s.m.queue = msg :: rest → s.m.cfg.connBlocked = true →
    (stationTakes msg s.m → givesUp msg s.m → msg.reason % 2 ^ 16 ≠ 0) ∧
    ¬(linking s.m ∧ s.m.sm.state = .scan ∧ msg.event = .connectFail) ∧
    ∀ a n, s.app = some a → a.code.awaits = some (n, .connDone) →
      s.m.sm.state = .dhcp ∧ msg.event = .dhcpSuccess → atLeast n (servedAfter msg s.m)
  | .app _ => ∀ a n q, s.app = some a → a.code = .flush n q → s.m.wait = [] →
    q.awaits = some (n, .connDone) → ∀ w ∈ s.posting, w.evt = .connDone → w.reason = 0 →
      atLeast n s.m.connectedFor
  | .post => ∀ w ws, s.posting = w :: ws → w.evt = .connDone →
    s.m.wait.length < mgmtWaitQueueMsgSize
  | _ => True

/-! ### The machine is set up -/

/-- The machine has been set up, or `INIT` is the next message. -/
def SetUp (s : World) : Prop :=
  s.m.sm.init = true ∨ ∃ msg rest, s.m.queue = msg :: rest ∧ msg.event = .init ∧ s.m.wvifType = .sta

section SetUp

variable {e : MgmtEnv} {r : ℕ} {p : Option MgmtParam} {c : Callers} {s u : World}

theorem init_postConn (r : ℕ) (c : Callers) : (c.postConn r).init = c.init := by
  rw [Callers.postConn]
  split <;> rfl

theorem Effect.init_apply {eff : Effect} (h : c.init = true) : (eff.apply r p c).init = true := by
  cases eff with
  | giveUp => exact (init_postConn r c).trans h
  | connected => exact (init_postConn _ _).trans h
  | scanAnswer k =>
    rw [Effect.apply, Callers.postScan]
    split <;> exact h
  | accept b => rcases p with _ | _ | _ | _ <;> cases b <;> exact h
  | restart => rfl
  | reset => rfl
  | _ => exact h

theorem init_switchMode {t : WvifType} (h : c.init = true) : (c.switchMode e t).init = true := by
  have hleave : (c.leave e).init = true := by
    rw [Callers.leave]
    split <;> exact h
  rw [Callers.switchMode]
  split
  · exact h
  · show (e.typeSet || (c.leave e).init) = true
    rw [hleave, Bool.or_true]

/-- What an operation of a call does to the interface. -/
theorem interface_appStep (h : appStep b a s = some u) :
    (∃ wait blocked reason, u.m = { s.m with
      wait := wait, lastReason := reason, sm := { s.m.sm with scanBlocked := blocked } }) ∨
    ∃ msg, u.m = (eloopMessageSend msg s.m).2 := by
  have hsame : ∃ wait blocked reason, s.m = { s.m with
      wait := wait, lastReason := reason, sm := { s.m.sm with scanBlocked := blocked } } :=
    ⟨s.m.wait, s.m.sm.scanBlocked, s.m.lastReason, rfl⟩
  rw [appStep] at h
  split at h
  · cases h
    exact Or.inl hsame
  · cases h
    exact Or.inl hsame
  · cases h
    exact Or.inl hsame
  · cases h
    exact Or.inl ⟨s.m.wait, _, s.m.lastReason, rfl⟩
  · cases h
    exact Or.inl ⟨s.m.wait, s.m.sm.scanBlocked, _, rfl⟩
  · split at h <;> cases h
    · exact Or.inl hsame
    · exact Or.inl ⟨_, s.m.sm.scanBlocked, s.m.lastReason, rfl⟩
  · cases h
    exact Or.inr ⟨_, rfl⟩
  · split at h
    · split at h <;> cases h
      exact Or.inl hsame
    · split at h <;> cases h <;> exact Or.inl ⟨_, s.m.sm.scanBlocked, s.m.lastReason, rfl⟩
  · cases h
    exact Or.inl hsame

theorem SetUp.grows {v : Mgmt} (h : SetUp s) (hu : u.m = v) (hi : v.sm.init = s.m.sm.init)
    (ht : v.wvifType = s.m.wvifType) (hq : ∃ l, v.queue = s.m.queue ++ l) : SetUp u := by
  rw [SetUp, hu, hi, ht]
  rcases h with h | ⟨msg, rest, hqueue, h⟩
  · exact Or.inl h
  · obtain ⟨l, hl⟩ := hq
    exact Or.inr ⟨msg, rest ++ l, by rw [hl, hqueue]; rfl, h⟩

theorem queue_eloopMessageSend (msg : Message) (m : Mgmt) :
    ∃ l, (eloopMessageSend msg m).2.queue = m.queue ++ l := by
  show ∃ l, pushQueue m.queue msg = m.queue ++ l
  rw [pushQueue]
  split
  · exact ⟨[msg], rfl⟩
  · exact ⟨[], (List.append_nil _).symm⟩

theorem setUp_worldStep (h : SetUp s) (hi : worldStep i s = some u) : SetUp u := by
  cases i with
  | send msg =>
    cases hi
    exact h.grows rfl rfl rfl (queue_eloopMessageSend _ _)
  | dispatch e =>
    obtain ⟨msg, rest, -, hq, rfl⟩ := worldStep_dispatch hi
    left
    have hrun := congrArg Callers.init
      (callers_runStateMachine e (taken msg rest { s.m with wait := [] }))
    refine Eq.trans (show _ = _ from hrun) ?_
    rcases h with h | ⟨msg', rest', hq', hev, ht⟩
    · split
      · exact init_switchMode h
      · exact Effect.init_apply h
    · obtain ⟨rfl, rfl⟩ : msg = msg' ∧ rest = rest' := by simpa [hq] using hq'
      have hsw : (taken msg rest { s.m with wait := [] }).sm.event ≠ .switchModeCmd := by
        rw [show (taken msg rest { s.m with wait := [] }).sm.event = _ from hev]
        simp
      rw [if_neg hsw]
      have heff : stepEffect e (taken msg rest { s.m with wait := [] }) = .restart := by
        rw [stepEffect, show (taken msg rest { s.m with wait := [] }).wvifType = .sta from ht]
        exact if_pos (Or.inr hev)
      rw [heff]
      rfl
  | post =>
    obtain ⟨w, posting, -, rfl⟩ := worldStep_post hi
    exact h
  | expire t e =>
    simp only [worldStep] at hi
    split at hi
    · cases hi
      have hc := callers_mgmtTimeout e { s.m with timeout := s.m.timeout.erase t } t
      obtain ⟨l, hl, -⟩ := queue_mgmtTimeout e { s.m with timeout := s.m.timeout.erase t } t
      refine h.grows rfl ?_ ?_ ⟨l, hl⟩
      · split at hc <;> exact congrArg Callers.init hc
      · split at hc <;> exact congrArg Callers.wvifType hc
    · cases hi
  | start call =>
    obtain ⟨-, rfl⟩ := worldStep_start hi
    exact h
  | app b =>
    obtain ⟨a, -, hi⟩ := worldStep_app hi
    rcases interface_appStep hi with ⟨wait, blocked, reason, hm⟩ | ⟨msg, hm⟩
    · exact h.grows hm rfl rfl ⟨[], (List.append_nil _).symm⟩
    · exact h.grows hm rfl rfl (queue_eloopMessageSend msg s.m)

end SetUp

/-! ### Successes and failures -/

section Posted

variable {e : MgmtEnv} {msg : Message} {rest : List Message} {m : Mgmt}

/-- **A `CONN_DONE` of success is that of a connection, or of a failure without a reason.** -/
theorem posted_success (h : (.connDone, 0) ∈ messagePosted e (taken msg rest m)) :
    m.cfg.connBlocked = true ∧
      (stationTakes msg m ∧ givesUp msg m ∧ msg.reason % 2 ^ 16 = 0 ∨
        (m.sm.state = .dhcp ∧ msg.event = .dhcpSuccess) ∧
          (handleMessage e msg rest m).1.connectedFor = servedAfter msg m) := by
  have hfor := congrArg Callers.connectedFor
    (callers_runStateMachine e (taken msg rest { m with wait := [] }))
  have htable : answersWith e msg m .connDone := answersWith_of_posted h
  rw [messagePosted] at h
  by_cases hsw : msg.event = .switchModeCmd
  · exact absurd hsw htable.1.2.2.1
  rw [if_neg (show ¬(taken msg rest m).sm.event = _ from hsw)] at h
  rw [if_neg (show ¬(taken msg rest { m with wait := [] }).sm.event = _ from hsw),
    (Effect.served_apply _).2] at hfor
  have hcause := cause_stepEffect (e := e) (m := taken msg rest m) rfl
  rw [show stepEffect e (taken msg rest { m with wait := [] }) =
    stepEffect e (taken msg rest m) from rfl] at hfor
  generalize stepEffect e (taken msg rest m) = eff at h hcause hfor
  cases eff with
  | giveUp =>
    rw [Effect.posted, List.mem_append] at h
    rcases h with h | h
    · split at h
      · have hr : 0 = (taken msg rest m).sm.reason := by simpa using h
        exact ⟨‹_›, Or.inl ⟨htable.1, hcause.2.2, hr.symm⟩⟩
      · simp at h
    · simp at h
  | connected =>
    rw [Effect.posted] at h
    split at h
    · exact ⟨‹_›, Or.inr ⟨hcause.2.2, hfor⟩⟩
    · simp at h
  | scanAnswer r =>
    rw [Effect.posted] at h
    split at h <;> simp at h
  | accept b => cases b <;> simp [Effect.posted] at h
  | refuse => simp [Effect.posted, macStFailure] at h
  | start k s r =>
    have hk : k = .connDone := by
      simp only [Effect.posted, List.mem_singleton, Prod.mk.injEq] at h
      exact h.1.symm
    rcases hcause with ⟨hk', -⟩ | ⟨hk', -⟩ <;> rw [hk] at hk' <;> cases hk'
  | _ => simp [Effect.posted] at h

/-- **An attempt that ends upon a failure is given up, or was left in `SCAN`.** -/
theorem giveUp_of_failure (hl : linking m) (hi : m.sm.init = true) (hf : failureEvent msg.event)
    (hidle : (handleMessage e msg rest m).1.sm.state = .idle)
    (hs : ¬(m.sm.state = .scan ∧ msg.event = .connectFail)) :
    givesUp msg m ∧ stepEffect e (taken msg rest m) = .giveUp := by
  have hne : msg.event ≠ .switchModeCmd ∧ msg.event ≠ .init ∧ msg.event ≠ .disconnectCmd ∧
      msg.event ≠ .scanCmd ∧ msg.event ≠ .connectCmd ∧ msg.event ≠ .dhcpSuccess := by
    rcases hf with h | h | h | h <;> rw [h] <;> simp
  have hrun := congrArg Callers.state
    (callers_runStateMachine e (taken msg rest { m with wait := [] }))
  rw [if_neg (show ¬(taken msg rest { m with wait := [] }).sm.event = _ from hne.1),
    show stepEffect e (taken msg rest { m with wait := [] }) =
      stepEffect e (taken msg rest m) from rfl] at hrun
  have hcancel : ¬cancels msg (taken msg rest m) := by
    rintro (⟨h, -⟩ | h | h | h)
    · exact hne.1 h
    · exact hne.2.2.1 h
    · exact hne.2.1 h
    · exact hs h
  have hon := onward_stepEffect (e := e) (m := taken msg rest m) hl rfl hi hne.2.1
    hcancel
  have hcause := cause_stepEffect (e := e) (m := taken msg rest m) rfl
  have hstate : (handleMessage e msg rest m).1.sm.state = _ := hrun
  rw [hidle] at hstate
  generalize stepEffect e (taken msg rest m) = eff at hon hcause hstate ⊢
  rcases hon with rfl | ⟨s, rfl, hs⟩ | ⟨-, rfl | rfl | rfl⟩
  · -- the machine stays in the attempt
    have hidle' : m.sm.state = .idle := hstate.symm
    rcases hl.2 with h | h | h | h <;> rw [h] at hidle' <;> cases hidle'
  · rcases hs with rfl | rfl | rfl | rfl <;> cases hstate
  · rcases hcause.2.2 with h | h
    · exact absurd h hne.2.2.2.1
    · exact absurd h hne.2.2.2.2.1
  · exact ⟨hcause.2.2, rfl⟩
  · exact absurd hcause.2.2.2 hne.2.2.2.2.2

end Posted

/-! ### The code of a connect -/

/-- The code never returns 0. -/
def CallCode.NonZero : CallCode → Prop
  | ret r => r ≠ 0
  | malloc p q | ifMode _ p q | send _ p q => p.NonZero ∧ q.NonZero
  | scanBlock _ p | lastReason _ p | flush _ p => p.NonZero
  | fetch _ _ f | enter f => ∀ r, (f r).NonZero

theorem nonZero_disconnectCode {v : ℤ} (hv : v ≠ 0) :
    (disconnectCode n fun _ => .ret v).NonZero :=
  ⟨⟨fun _ => hv, hv⟩, hv⟩

/-- A reason other than 0 is returned. -/
theorem nonZero_connectEnd {r : ℕ} (hr : r ≠ 0) : (connectEnd r).NonZero := by
  have hv : (r : ℤ) ≠ 0 := by exact_mod_cast hr
  show (if r = fetchTimeout then _ else _ : CallCode).NonZero
  split
  · exact fun n => nonZero_disconnectCode hv
  · exact hv

section Codes

variable {s u : World}

theorem nonZero_appStep (h : a.code.NonZero) (happ : s.app = some a)
    (hi : appStep b a s = some u) : ∀ a', u.app = some a' → a'.code.NonZero := by
  intro a' ha'
  rw [appStep] at hi
  rcases hc : a.code with v | ⟨p, q⟩ | ⟨t, p, q⟩ | ⟨c, p⟩ | ⟨r, p⟩ | ⟨j, p⟩ | ⟨msg, p, q⟩ |
    ⟨j, k, f⟩ | f <;> simp only [hc] at hi h
  · cases hi
    cases ha'
  · cases hi
    cases ha'
    cases b
    · exact h.2
    · exact h.1
  · cases hi
    cases ha'
    show (if _ then p else q : CallCode).NonZero
    split
    · exact h.1
    · exact h.2
  · cases hi
    cases ha'
    exact h
  · cases hi
    cases ha'
    exact h
  · split at hi <;> cases hi
    · cases ha'
      exact h
    · rw [show a' = a from Option.some.inj (ha'.symm.trans happ), hc]
      exact h
  · cases hi
    cases ha'
    show (if _ then p else q : CallCode).NonZero
    split
    · exact h.1
    · exact h.2
  · split at hi
    · split at hi <;> cases hi
      cases ha'
      exact h _
    · split at hi <;> cases hi
      · cases ha'
        exact h _
      · rw [show a' = a from Option.some.inj (ha'.symm.trans happ), hc]
        exact h
  · cases hi
    cases ha'
    exact h _

/-- A blocked connect from its command on. -/
def connectSend (n : ℕ) (cfg : StaCfg) : CallCode :=
  .send ⟨.connectCmd, 0, some (.staCfg cfg), some n⟩ (.fetch n .connDone connectEnd) (.ret (-5))

theorem wifiManagementConnect_cases (n : ℕ) (ssid password : Option (List ℕ)) :
    (wifiManagementConnect ssid password true n).NonZero ∨
      ∃ cfg, wifiManagementConnect ssid password true n = .send (switchMessage .sta)
        (.malloc (.flush n (connectSend n cfg)) (.ret (-4))) (.ret (-3)) := by
  rw [wifiManagementConnect]
  split
  · exact Or.inl (show (-1 : ℤ) ≠ 0 by decide)
  split
  · exact Or.inl (show (-2 : ℤ) ≠ 0 by decide)
  · exact Or.inr ⟨connectCfg (ssid.getD []) true, rfl⟩

theorem connectEnd_zero : connectEnd 0 = .lastReason 0 (.ret 0) := by
  simp [connectEnd, fetchTimeout]

/-- The codes a blocked connect goes through: it returns 0 when the fetch does, and then
`CONNECTED` was entered. -/
inductive ConnectAt (n : ℕ) (connectedFor : Option ℕ) : CallCode → Prop
  | call (ssid password : Option (List ℕ)) :
    ConnectAt n connectedFor (wifiManagementConnect ssid password true n)
  | malloc (cfg : StaCfg) :
    ConnectAt n connectedFor (.malloc (.flush n (connectSend n cfg)) (.ret (-4)))
  | flush (cfg : StaCfg) : ConnectAt n connectedFor (.flush n (connectSend n cfg))
  | send (cfg : StaCfg) : ConnectAt n connectedFor (connectSend n cfg)
  | fetch : ConnectAt n connectedFor (.fetch n .connDone connectEnd)
  | nonZero {p : CallCode} (h : p.NonZero) : ConnectAt n connectedFor p
  | fetched (h : atLeast n connectedFor) : ConnectAt n connectedFor (.lastReason 0 (.ret 0))
  | done (h : atLeast n connectedFor) : ConnectAt n connectedFor (.ret 0)

theorem ConnectAt.mono {o o' : Option ℕ} {p : CallCode} (h : ConnectAt n o p)
    (ho : atLeast n o → atLeast n o') : ConnectAt n o' p := by
  cases h with
  | call ssid password => exact .call ssid password
  | malloc cfg => exact .malloc cfg
  | flush cfg => exact .flush cfg
  | send cfg => exact .send cfg
  | fetch => exact .fetch
  | nonZero h => exact .nonZero h
  | fetched h => exact .fetched (ho h)
  | done h => exact .done (ho h)

/-- **One operation of a blocked connect**, when a success it fetches is that of its command. -/
theorem connectAt_appStep
    (h : ConnectAt n s.m.connectedFor a.code) (happ : s.app = some a)
    (hw : ∀ w ws, a.code = .fetch n .connDone connectEnd → s.m.wait = w :: ws →
      w.evt = .connDone → w.reason = 0 → atLeast n s.m.connectedFor)
    (hi : appStep b a s = some u) :
    ∀ a', u.app = some a' → ConnectAt n s.m.connectedFor a'.code := by
  intro a' ha'
  have hself (hu : u.app = s.app) : a' = a := Option.some.inj ((hu ▸ ha').symm.trans happ)
  by_cases hnz : a.code.NonZero
  · exact .nonZero (nonZero_appStep hnz happ hi a' ha')
  rw [appStep] at hi
  obtain ⟨p, hp⟩ : ∃ p, a.code = p := ⟨_, rfl⟩
  rw [hp] at h hi hw hnz
  cases h with
  | call ssid password =>
    rcases wifiManagementConnect_cases n ssid password with h | ⟨cfg, h⟩
    · exact absurd h hnz
    · rw [h] at hi
      cases hi
      cases ha'
      show ConnectAt n _ (if _ then _ else _)
      split
      · exact .malloc cfg
      · exact .nonZero (show (-3 : ℤ) ≠ 0 by decide)
  | malloc cfg =>
    cases hi
    cases ha'
    cases b
    · exact .nonZero (show (-4 : ℤ) ≠ 0 by decide)
    · exact .flush cfg
  | flush cfg =>
    rcases hwait : s.m.wait with _ | ⟨w, ws⟩ <;> simp only [hwait] at hi <;> cases hi
    · cases ha'
      exact .send cfg
    · rw [hself rfl, hp]
      exact .flush cfg
  | send cfg =>
    cases hi
    cases ha'
    show ConnectAt n _ (if _ then _ else _)
    split
    · exact .fetch
    · exact .nonZero (show (-5 : ℤ) ≠ 0 by decide)
  | fetch =>
    rcases hwait : s.m.wait with _ | ⟨w, ws⟩ <;> simp only [hwait] at hi
    · split at hi <;> cases hi
      cases ha'
      exact .nonZero (nonZero_connectEnd (by decide))
    · split at hi <;> cases hi
      · cases ha'
        by_cases hr : w.reason = 0
        · show ConnectAt n _ (connectEnd w.reason)
          rw [hr, connectEnd_zero]
          exact .fetched (hw w ws rfl hwait ‹_› hr)
        · exact .nonZero (nonZero_connectEnd hr)
      · rw [hself rfl, hp]
        exact .fetch
  | nonZero h => exact absurd h hnz
  | fetched h =>
    cases hi
    cases ha'
    exact .done h
  | done h =>
    cases hi
    cases ha'

end Codes

/-! ### Every run -/

/-- What is kept: the calls are in order, and a success a blocked connect can fetch, or has
fetched, is that of its command. -/
structure Told (s : World) : Prop extends Ordered s where
  setUp : SetUp s
  successes : ∀ a n, s.app = some a → a.code.awaits = some (n, .connDone) →
    ∀ w ∈ s.m.wait ++ s.posting, w.evt = .connDone → w.reason = 0 → atLeast n s.m.connectedFor
  code_connect : ∀ a ssid password, s.app = some a → a.call = .connect ssid password true →
    ConnectAt a.number s.m.connectedFor a.code

section Runs

variable {s u : World}

/-- The call `CONNECTED` was last entered for only goes up. -/
theorem atLeast_connectedFor (h : Ordered s) (hi : worldStep i s = some u)
    (hn : atLeast n s.m.connectedFor) : atLeast n u.m.connectedFor := by
  cases i with
  | send msg =>
    cases hi
    exact hn
  | dispatch e =>
    obtain ⟨msg, rest, -, hq, rfl⟩ := worldStep_dispatch hi
    show atLeast n (handleMessage e msg rest s.m).1.connectedFor
    rcases connectedFor_handleMessage (e := e) (m := s.m) with hc | hc
    · exact hc.symm ▸ hn
    · obtain ⟨j, hj, hnj⟩ := hn
      rw [hc]
      exact atLeast_mono (atLeast_servedAfter hq h.sorted (h.connected j hj)) hnj
  | post =>
    obtain ⟨w, posting, -, rfl⟩ := worldStep_post hi
    exact hn
  | expire t e =>
    obtain ⟨v, rfl, -, -, -, hconnected, -⟩ := worldStep_expire hi
    exact hconnected.symm ▸ hn
  | start call =>
    obtain ⟨-, rfl⟩ := worldStep_start hi
    exact hn
  | app b =>
    obtain ⟨a, happ, hi⟩ := worldStep_app hi
    obtain ⟨m, hm, -, hp⟩ := h.code a happ
    exact (appNext_appStep hm hp happ hi).served.2.symm ▸ hn

theorem told_init (autoConn : Bool) : Told (worldInit autoConn) :=
  { ordered_init autoConn with
    setUp := Or.inr ⟨_, _, rfl, rfl, rfl⟩
    successes := fun a n h => by cases h
    code_connect := fun a ssid password h => by cases h }

/-- **Every step that tells the caller keeps it so.** -/
theorem told_worldStep (h : Told s) (ht : i.Telling s)
    (hi : worldStep i s = some u) : Told u := by
  have hmono (n : ℕ) := atLeast_connectedFor (n := n) h.toOrdered hi
  refine { ordered_worldStep h.toOrdered hi with
    setUp := setUp_worldStep h.setUp hi, successes := ?_, code_connect := ?_ }
  · intro a n happ hawaits w hw hk hr
    rcases awaited_cases h.toOrdered hi happ hawaits hw with ⟨a', happ', hawaits', hw'⟩ |
      ⟨e, msg, rest, rfl, happ', hq, hw', hu⟩ | ⟨b, a', q, rfl, happ', hc, hawaits', hwait, hw'⟩
    · exact hmono n (h.successes a' n happ' hawaits' w hw' hk hr)
    · -- a success that is about to be posted is that of a connection
      obtain ⟨-, -, hposted⟩ := mem_posting_handleMessage hw'
      rw [hk, hr] at hposted
      obtain ⟨hb, ⟨htakes, hg, hz⟩ | ⟨hs, hfor⟩⟩ := posted_success hposted
      · exact absurd hz ((ht msg rest hq hb).1 htakes hg)
      · rw [hu, hfor]
        exact (ht msg rest hq hb).2.2 a n happ' hawaits hs
    · exact hmono n (ht a' n q happ' hc hwait hawaits' w hw' hk hr)
  · intro a ssid password happ hcall
    have hstay (happ' : u.app = s.app) : ConnectAt a.number u.m.connectedFor a.code :=
      (h.code_connect a ssid password (happ' ▸ happ) hcall).mono (hmono a.number)
    cases i with
    | send msg =>
      cases hi
      exact hstay rfl
    | dispatch e =>
      obtain ⟨msg, rest, -, -, rfl⟩ := worldStep_dispatch hi
      exact hstay rfl
    | post =>
      obtain ⟨w, posting, -, rfl⟩ := worldStep_post hi
      exact hstay rfl
    | expire t e =>
      obtain ⟨v, rfl, -⟩ := worldStep_expire hi
      exact hstay rfl
    | start call =>
      obtain ⟨-, rfl⟩ := worldStep_start hi
      cases happ
      cases hcall
      exact .call ssid password
    | app b =>
      obtain ⟨a', happ', hi'⟩ := worldStep_app hi
      obtain ⟨m, hm, -, hp⟩ := h.code a' happ'
      rcases (appNext_appStep hm hp happ' hi').code with hnone | ⟨q, j, hq, -⟩
      · rw [hnone] at happ
        cases happ
      · rw [hq] at happ
        cases happ
        refine (connectAt_appStep (h.code_connect a' ssid password happ' hcall) happ' ?_ hi' _
          hq).mono (hmono a'.number)
        intro w ws hc hw hk hr
        exact h.successes a' a'.number happ' (by rw [hc]; rfl) w (by simp [hw]) hk hr

/-- A step that tells the caller reports the end of the attempt. -/
theorem reported_of_told (h : SetUp s) (ht : i.Telling s)
    (hi : worldStep i s = some u) : Reported s i u where
  ends := by
    rintro msg rest ⟨e, rfl⟩ hq hb hl hf hidle
    obtain ⟨msg', rest', -, hq', rfl⟩ := worldStep_dispatch hi
    obtain ⟨rfl, rfl⟩ : msg = msg' ∧ rest = rest' := by simpa [hq] using hq'
    obtain ⟨hreason, hscan, -⟩ := ht msg rest hq hb
    have hinit : s.m.sm.init = true := by
      rcases h with h | ⟨msg', rest', hq', hev, -⟩
      · exact h
      · obtain ⟨rfl, rfl⟩ : msg = msg' ∧ rest = rest' := by simpa [hq] using hq'
        rcases hf with h | h | h | h <;> rw [hev] at h <;> cases h
    obtain ⟨hg, heff⟩ := giveUp_of_failure hl hinit hf hidle fun hs => hscan ⟨hl, hs⟩
    have htakes : stationTakes msg s.m := by
      refine ⟨hl.1, hinit, ?_, ?_⟩ <;> rcases hf with h | h | h | h <;> rw [h] <;> simp
    show ∃ w ∈ (handleMessage e msg rest s.m).2, _
    rw [posting_handleMessage, messagePosted,
      if_neg (show ¬(taken msg rest s.m).sm.event = _ from htakes.2.2.1), heff, Effect.posted,
      if_pos (show (callers (taken msg rest s.m)).conn = true from hb)]
    exact ⟨_, List.mem_cons_self, rfl, hreason htakes hg⟩
  posted := by
    rintro w ws rfl hposting hk
    obtain ⟨w', ws', hposting', rfl⟩ := worldStep_post hi
    obtain ⟨rfl, rfl⟩ : w = w' ∧ ws = ws' := by simpa [hposting] using hposting'
    show w ∈ pushWait s.m.wait w
    rw [pushWait, if_pos (ht w ws hposting hk)]
    simp

end Runs

/-- A blocked connect whose scans fail, until the retries are used up. -/
def failingScans : List WorldStep :=
  [.dispatch fairEnv, .post, .start (.connect (some [104, 111]) none true), .app true, .app true,
    .app true, .app true, .app true, .dispatch fairEnv, .dispatch fairEnv,
    .send (plain .scanFail), .dispatch fairEnv, .expire .connectRetry fairEnv,
    .send (plain .scanFail), .dispatch fairEnv, .expire .connectRetry fairEnv,
    .send (plain .scanFail), .dispatch fairEnv, .post, .app true, .app true]

end Wifi

end Gd32
