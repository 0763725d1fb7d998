import Gd32Firmware.Wifi.Calls
import Gd32Firmware.Wifi.Waiting

/-!
# Whether a blocking call gets its own answer

The answers in `mgmt_wait_queue` name no call: a call flushes the queue, sends its command and
takes the first answer of the right kind. So it is answered by its own command only if nothing
else posts that kind between the flush and the command, and if the flush does not come after the
command has been handled (`Wifi.answers_own`). `wifi_management_monitor_start` flushes after
it has sent, and nearly everything that takes the station to `IDLE` posts `DISCONN_DONE`.
-/

namespace Gd32

open List

variable {n j : ℕ} {b : Bool} {a : AppCall} {w : WaitEvt} {i : WorldStep}

namespace Wifi

/-! ### What a message posts -/

/-- The kinds and reasons of the answers an effect posts, upon a message with this reason. -/
def Effect.posted (reason : ℕ) (c : Callers) : Effect → List (WaitKind × ℕ)
  | giveUp => (if c.conn then [(.connDone, reason)] else []) ++ [(.disconnDone, 0)]
  | idle | restart | disconnAnswer | accept true => [(.disconnDone, 0)]
  | refuse => [(.connDone, macStFailure)]
  | connected => if c.conn then [(.connDone, macStSuccessful)] else []
  | scanAnswer r => if c.scan then [(.scanDone, r)] else []
  | start k _ r => [(k, r)]
  | nothing | enter _ | accept false | reset => []

/-- The answers of a message. -/
def messagePosted (e : MgmtEnv) (m : Mgmt) : List (WaitKind × ℕ) :=
  if m.sm.event = .switchModeCmd then
    if m.wvifType = .sta ∧ WvifType.ofNumber m.sm.reason ≠ .sta then [(.disconnDone, 0)] else []
  else (stepEffect e m).posted m.sm.reason (callers m)

/-- An answer, as it is posted in `c`. -/
def Callers.stamp (c : Callers) (a : WaitKind × ℕ) : WaitEvt := ⟨a.1, a.2, c.serving, c.served⟩

theorem wait_postConn (r : ℕ) (c : Callers) :
    (c.postConn r).wait =
      ((if c.conn then [(WaitKind.connDone, r)] else []).map c.stamp).foldl pushWait c.wait := by
  rw [Callers.postConn]
  split <;> rfl

theorem Callers.stamp_postConn (r : ℕ) (c : Callers) : (c.postConn r).stamp = c.stamp := by
  rw [Callers.postConn]
  split <;> rfl

/-- An effect posts what it is said to post. -/
theorem Effect.wait_apply (eff : Effect) (r : ℕ) (p : Option MgmtParam) (c : Callers) :
    (eff.apply r p c).wait = ((eff.posted r c).map c.stamp).foldl pushWait c.wait := by
  cases eff with
  | giveUp =>
    have h := Callers.stamp_postConn r c
    rw [Effect.posted, map_append, foldl_append, ← wait_postConn, ← h]
    rfl
  | connected => exact wait_postConn _ _
  | scanAnswer k =>
    rw [Effect.apply, Effect.posted, Callers.postScan]
    split <;> rfl
  | accept b => rcases p with _ | _ | _ | _ <;> cases b <;> rfl
  | _ => rfl

theorem wait_switchMode {e : MgmtEnv} {t : WvifType} {c : Callers} :
    (c.switchMode e t).wait =
      ((if c.wvifType = .sta ∧ t ≠ .sta then [(WaitKind.disconnDone, 0)] else []).map
        c.stamp).foldl pushWait c.wait := by
  have hleave : (c.leave e).wait =
      ((if c.wvifType = .sta then [(WaitKind.disconnDone, 0)] else []).map c.stamp).foldl
        pushWait c.wait := by
    rw [Callers.leave]
    split <;> rename_i h <;> simp only [h] <;> rfl
  rw [Callers.switchMode]
  by_cases ht : c.wvifType = t
  · rw [if_pos ht, if_neg (by rw [ht]; exact fun h => h.2 h.1)]
    rfl
  · rw [if_neg ht]
    have hiff : (c.wvifType = .sta ∧ t ≠ .sta) = (c.wvifType = .sta) := by
      refine propext ⟨fun h => h.1, fun h => ⟨h, fun h' => ht (h.trans h'.symm)⟩⟩
    simp only [hiff]
    rw [← hleave]

/-- **The answers of a message, with the call they are posted for.** -/
theorem posting_handleMessage (e : MgmtEnv) (msg : Message) (rest : List Message) (m : Mgmt) :
    (handleMessage e msg rest m).2 =
      (messagePosted e (taken msg rest m)).map (callers (taken msg rest m)).stamp := by
  have hrun := congrArg Callers.wait
    (callers_runStateMachine e (taken msg rest { m with wait := [] }))
  have hlen : ∀ l : List WaitEvt, l.length ≤ 2 → l.foldl pushWait [] = l := by
    intro l hl
    rcases l with _ | ⟨a, _ | ⟨b, _ | ⟨c, l⟩⟩⟩
    · rfl
    · rfl
    · rfl
    · simp at hl
  have hu : (handleMessage e msg rest m).2 =
      (callers (runStateMachine e (taken msg rest { m with wait := [] }))).wait := rfl
  rw [hu, hrun]
  by_cases hsw : msg.event = .switchModeCmd
  · rw [if_pos (show (taken msg rest { m with wait := [] }).sm.event = _ from hsw),
      wait_switchMode, messagePosted, if_pos (show (taken msg rest m).sm.event = _ from hsw)]
    refine hlen _ ?_
    split <;> simp
  · rw [if_neg (show ¬(taken msg rest { m with wait := [] }).sm.event = _ from hsw),
      Effect.wait_apply, messagePosted, if_neg (show ¬(taken msg rest m).sm.event = _ from hsw)]
    refine (hlen _ ?_).trans ?_
    · generalize stepEffect e (taken msg rest { m with wait := [] }) = eff
      cases eff with
      | giveUp => simp only [Effect.posted]; split <;> simp
      | connected => simp only [Effect.posted]; split <;> simp
      | scanAnswer r => simp only [Effect.posted]; split <;> simp
      | accept b => cases b <;> simp [Effect.posted]
      | _ => simp [Effect.posted]
    · rfl

/-! ### Which messages are answered -/

/-- The station machine runs, and takes the message. -/
def stationTakes (msg : Message) (m : Mgmt) : Prop :=
  m.wvifType = .sta ∧ m.sm.init = true ∧ msg.event ≠ .switchModeCmd ∧ msg.event ≠ .init

/-- The message takes the station to `IDLE`, or is a `DISCONNECT_CMD` there. -/
def answersDisconnect (e : MgmtEnv) (msg : Message) (m : Mgmt) : Prop :=
  m.wvifType = .sta ∧
    (msg.event = .switchModeCmd ∧ WvifType.ofNumber (msg.reason % 2 ^ 16) ≠ .sta ∨
      msg.event ≠ .switchModeCmd ∧ (m.sm.init = false ∨ msg.event = .init)) ∨
  stationTakes msg m ∧
    (msg.event = .disconnectCmd ∧ m.sm.state ≠ .wps ∨ givesUp msg m ∨
      m.sm.state = .scan ∧ msg.event = .connectFail ∨
      m.sm.state = .idle ∧ msg.event = .autoConnectCmd ∧ e.joinedAp = none ∨
      m.sm.state = .connected ∧
        (msg.event = .connectCmd ∨ msg.event = .disconnect ∧ ¬reconnects (msg.reason % 2 ^ 16)))

/-- The message refuses a request in an attempt, or ends the attempt of a blocked connect. -/
def answersConnect (msg : Message) (m : Mgmt) : Prop :=
  stationTakes msg m ∧
    (linking m ∧ (msg.event = .scanCmd ∨ msg.event = .connectCmd) ∨ m.cfg.connBlocked = true ∧
        (m.sm.state = .dhcp ∧ msg.event = .dhcpSuccess ∨ givesUp msg m))

/-- The message starts a machine of the mode `type`. -/
def answersStart (type : WvifType) (ev : MgmtEvent) (msg : Message) (m : Mgmt) : Prop :=
  m.wvifType = type ∧ m.sm.init = true ∧ m.sm.state = .init ∧ msg.event = ev

/-- The message is answered with the kind `k`. -/
def answersWith (e : MgmtEnv) (msg : Message) (m : Mgmt) : WaitKind → Prop
  | .scanDone => m.sm.scanBlocked = true ∧ endsScan e msg m
  | .connDone => answersConnect msg m
  | .disconnDone => answersDisconnect e msg m
  | .apStartDone => answersStart .ap .startApCmd msg m
  | .monitorStartDone => answersStart .monitor .monitorStartCmd msg m

section Inversion

variable {e : MgmtEnv} {m : Mgmt} {msg : Message}

/-- What leads to an effect with an answer. -/
def Effect.Cause (e : MgmtEnv) (msg : Message) (m : Mgmt) : Effect → Prop
  | .giveUp => m.wvifType = .sta ∧ m.sm.init = true ∧ givesUp msg m
  | .idle | .disconnAnswer => m.wvifType = .sta ∧ m.sm.init = true ∧
      (msg.event = .disconnectCmd ∧ m.sm.state ≠ .wps ∨
        m.sm.state = .scan ∧ msg.event = .connectFail ∨
        m.sm.state = .idle ∧ msg.event = .autoConnectCmd ∧ e.joinedAp = none ∨
        m.sm.state = .connected ∧ msg.event = .disconnect ∧ ¬reconnects m.sm.reason)
  | .restart => m.wvifType = .sta ∧ (m.sm.init = false ∨ msg.event = .init)
  | .accept true => m.wvifType = .sta ∧ m.sm.init = true ∧ m.sm.state = .connected ∧
      msg.event = .connectCmd
  | .refuse => linking m ∧ m.sm.init = true ∧ (msg.event = .scanCmd ∨ msg.event = .connectCmd)
  | .connected => m.wvifType = .sta ∧ m.sm.init = true ∧ m.sm.state = .dhcp ∧
      msg.event = .dhcpSuccess
  | .start k _ _ =>
    k = .apStartDone ∧ answersStart .ap .startApCmd msg m ∨
      k = .monitorStartDone ∧ answersStart .monitor .monitorStartCmd msg m
  | _ => True

theorem cause_scanCmdEffect : (scanCmdEffect e).Cause e msg m := by
  rw [scanCmdEffect]
  split <;> trivial

theorem cause_linkEffect (ht : m.wvifType = .sta) (hi : m.sm.init = true)
    (h : (m.sm.state = .connect ∨ m.sm.state = .handshake ∨ m.sm.state = .dhcp) ∧
      (msg.event = .connectFail ∨ msg.event = .disconnect) ∨
        m.sm.state = .dhcp ∧ msg.event = .dhcpFail) : (linkEffect m).Cause e msg m := by
  rcases linkEffect_eq h with he | ⟨hg, he⟩ <;> rw [he]
  · trivial
  · exact ⟨ht, hi, hg⟩

theorem cause_startedEffect : (startedEffect e m).Cause e msg m := by
  rw [startedEffect]
  split
  · exact cause_scanCmdEffect
  all_goals trivial

theorem cause_startEffect {k : WaitKind} {ret : ℤ}
    (h : k = .apStartDone ∧ answersStart .ap .startApCmd msg m ∨
      k = .monitorStartDone ∧ answersStart .monitor .monitorStartCmd msg m) :
    (startEffect k ret).Cause e msg m := by
  rw [startEffect]
  split <;> exact h

theorem cause_stationEffect (ht : m.wvifType = .sta) (hev : m.sm.event = msg.event) :
    (stationEffect e m).Cause e msg m := by
  rw [stationEffect, hev]
  by_cases hne : m.sm.init = false ∨ msg.event = .init
  · rw [if_pos hne]
    exact ⟨ht, hne⟩
  rw [if_neg hne]
  have hi : m.sm.init = true := by
    rw [not_or] at hne
    simpa using hne.1
  rcases hs : m.sm.state <;> simp only []
  · rw [idleEffect, hev]
    split <;> rename_i h
    · exact cause_scanCmdEffect
    · trivial
    · split <;> rename_i ha
      · trivial
      · refine ⟨ht, hi, Or.inr (Or.inr (Or.inl ⟨hs, h, ?_⟩))⟩
        simpa using ha
    · trivial
    · exact ⟨ht, hi, Or.inl ⟨h, by simp [hs]⟩⟩
    · trivial
  · trivial
  · have hl : linking m := ⟨ht, Or.inl hs⟩
    rw [scanEffect, hev]
    split <;> rename_i h
    · exact ⟨hl, hi, Or.inl h⟩
    · exact ⟨hl, hi, Or.inr h⟩
    · exact ⟨ht, hi, Or.inl ⟨h, by simp [hs]⟩⟩
    · exact ⟨ht, hi, Or.inr (Or.inl ⟨hs, h⟩)⟩
    · trivial
    · split
      · trivial
      · exact ⟨ht, hi, by omega, Or.inl ⟨hs, h⟩⟩
    · trivial
  · have hl : linking m := ⟨ht, Or.inr (Or.inl hs)⟩
    rw [connectEffect, hev]
    split <;> rename_i h
    · exact ⟨hl, hi, Or.inl h⟩
    · exact ⟨hl, hi, Or.inr h⟩
    · exact ⟨ht, hi, Or.inl ⟨h, by simp [hs]⟩⟩
    · trivial
    · exact cause_linkEffect ht hi (Or.inl ⟨Or.inl hs, Or.inl h⟩)
    · exact cause_linkEffect ht hi (Or.inl ⟨Or.inl hs, Or.inr h⟩)
    · trivial
  · have hl : linking m := ⟨ht, Or.inr (Or.inr (Or.inl hs))⟩
    rw [handshakeEffect, hev]
    split <;> rename_i h
    · exact ⟨hl, hi, Or.inl h⟩
    · exact ⟨hl, hi, Or.inr h⟩
    · exact ⟨ht, hi, Or.inl ⟨h, by simp [hs]⟩⟩
    · exact cause_linkEffect ht hi (Or.inl ⟨Or.inr (Or.inl hs), Or.inl h⟩)
    · exact cause_linkEffect ht hi (Or.inl ⟨Or.inr (Or.inl hs), Or.inr h⟩)
    · trivial
    · trivial
  · have hl : linking m := ⟨ht, Or.inr (Or.inr (Or.inr hs))⟩
    rw [dhcpEffect, hev]
    split <;> rename_i h
    · exact ⟨hl, hi, Or.inl h⟩
    · exact ⟨hl, hi, Or.inr h⟩
    · exact ⟨ht, hi, Or.inl ⟨h, by simp [hs]⟩⟩
    · exact ⟨ht, hi, hs, h⟩
    · exact cause_linkEffect ht hi (Or.inr ⟨hs, h⟩)
    · exact cause_linkEffect ht hi (Or.inl ⟨Or.inr (Or.inr hs), Or.inl h⟩)
    · exact cause_linkEffect ht hi (Or.inl ⟨Or.inr (Or.inr hs), Or.inr h⟩)
    · trivial
  · rw [connectedEffect, hev]
    split <;> rename_i h
    · exact cause_scanCmdEffect
    · exact ⟨ht, hi, hs, h⟩
    · exact ⟨ht, hi, Or.inl ⟨h, by simp [hs]⟩⟩
    · trivial
    · trivial
    · split <;> rename_i hr
      · trivial
      · exact ⟨ht, hi, Or.inr (Or.inr (Or.inr ⟨hs, h, hr⟩))⟩
    · trivial

/-- **What a step can answer, and upon which messages.** -/
theorem cause_stepEffect (hev : m.sm.event = msg.event) : (stepEffect e m).Cause e msg m := by
  rcases ht : m.wvifType <;> simp only [stepEffect, ht]
  · trivial
  · exact cause_stationEffect ht hev
  · rw [softapEffect, hev]
    split <;> rename_i hi
    · trivial
    · rw [not_or] at hi
      rcases hs : m.sm.state <;> simp only []
      · split <;> rename_i h
        · exact cause_startEffect (Or.inl ⟨rfl, ht, by simpa using hi.1, hs, h⟩)
        · trivial
      · split
        · trivial
        · exact cause_startedEffect
      all_goals trivial
  · rw [monitorEffect, hev]
    split <;> rename_i hi
    · trivial
    · rw [not_or] at hi
      rcases hs : m.sm.state <;> simp only []
      · split <;> rename_i h
        · exact cause_startEffect (Or.inr ⟨rfl, ht, by simpa using hi.1, hs, h⟩)
        · trivial
      · exact cause_startedEffect
      all_goals trivial

end Inversion

section Answers

variable {e : MgmtEnv} {msg : Message} {rest : List Message} {m : Mgmt} {k : WaitKind} {r : ℕ}

/-- **Every answer is one to a message that is answered with its kind.** -/
theorem answersWith_of_posted (h : (k, r) ∈ messagePosted e (taken msg rest m)) :
    answersWith e msg m k := by
  rw [messagePosted] at h
  by_cases hsw : msg.event = .switchModeCmd
  · rw [if_pos (show (taken msg rest m).sm.event = _ from hsw)] at h
    split at h
    · rename_i ht
      obtain ⟨rfl, -⟩ : k = .disconnDone ∧ r = 0 := by simpa using h
      exact Or.inl ⟨ht.1, Or.inl ⟨hsw, ht.2⟩⟩
    · simp at h
  rw [if_neg (show ¬(taken msg rest m).sm.event = _ from hsw)] at h
  have hcause := cause_stepEffect (e := e) (m := taken msg rest m) rfl
  have hanswer : ∀ r, stepEffect e (taken msg rest m) = .scanAnswer r → endsScan e msg m :=
    fun r hr => endsScan_of_answer (m := taken msg rest m) rfl hr
  generalize stepEffect e (taken msg rest m) = eff at h hcause hanswer
  have hinit {ev : MgmtEvent} (hev : msg.event = ev) (hne : ev ≠ .init) : msg.event ≠ .init := by
    rwa [hev]
  have hidle (hc : Effect.idle.Cause e msg (taken msg rest m)) : answersDisconnect e msg m := by
    obtain ⟨ht, hi, hc⟩ := hc
    have htakes (hne : msg.event ≠ .init) : stationTakes msg m := ⟨ht, hi, hsw, hne⟩
    rcases hc with ⟨hev, hs⟩ | ⟨hs, hev⟩ | ⟨hs, hev, ha⟩ | ⟨hs, hev, hr⟩
    · exact Or.inr ⟨htakes (hinit hev (by simp)), Or.inl ⟨hev, hs⟩⟩
    · exact Or.inr ⟨htakes (hinit hev (by simp)), Or.inr (Or.inr (Or.inl ⟨hs, hev⟩))⟩
    · exact Or.inr ⟨htakes (hinit hev (by simp)),
        Or.inr (Or.inr (Or.inr (Or.inl ⟨hs, hev, ha⟩)))⟩
    · exact Or.inr ⟨htakes (hinit hev (by simp)),
        Or.inr (Or.inr (Or.inr (Or.inr ⟨hs, Or.inr ⟨hev, hr⟩⟩)))⟩
  cases eff with
  | giveUp =>
    obtain ⟨ht, hi, hg⟩ := hcause
    have htakes : stationTakes msg m := by
      refine ⟨ht, hi, hsw, fun hev => ?_⟩
      obtain ⟨-, ⟨-, h⟩ | ⟨-, h | h⟩ | ⟨-, h⟩⟩ := hg <;> rw [hev] at h <;> cases h
    rw [Effect.posted, mem_append] at h
    rcases h with h | h
    · split at h
      · obtain ⟨rfl, -⟩ : k = .connDone ∧ _ := by simpa using h
        exact ⟨htakes, Or.inr ⟨‹_›, Or.inr hg⟩⟩
      · simp at h
    · obtain ⟨rfl, -⟩ : k = .disconnDone ∧ _ := by simpa using h
      exact Or.inr ⟨htakes, Or.inr (Or.inl hg)⟩
  | idle =>
    obtain ⟨rfl, -⟩ : k = .disconnDone ∧ r = 0 := by simpa [Effect.posted] using h
    exact hidle hcause
  | disconnAnswer =>
    obtain ⟨rfl, -⟩ : k = .disconnDone ∧ r = 0 := by simpa [Effect.posted] using h
    exact hidle hcause
  | restart =>
    obtain ⟨rfl, -⟩ : k = .disconnDone ∧ r = 0 := by simpa [Effect.posted] using h
    exact Or.inl ⟨hcause.1, Or.inr ⟨hsw, hcause.2⟩⟩
  | accept b =>
    cases b
    · simp [Effect.posted] at h
    · obtain ⟨rfl, -⟩ : k = .disconnDone ∧ r = 0 := by simpa [Effect.posted] using h
      obtain ⟨ht, hi, hs, hev⟩ := hcause
      exact Or.inr ⟨⟨ht, hi, hsw, hinit hev (by simp)⟩,
        Or.inr (Or.inr (Or.inr (Or.inr ⟨hs, Or.inl hev⟩)))⟩
  | refuse =>
    obtain ⟨rfl, -⟩ : k = .connDone ∧ _ := by simpa [Effect.posted] using h
    obtain ⟨hl, hi, hev⟩ := hcause
    refine ⟨⟨hl.1, hi, hsw, ?_⟩, Or.inl ⟨hl, hev⟩⟩
    rcases hev with hev | hev <;> exact hinit hev (by simp)
  | connected =>
    obtain ⟨ht, hi, hs, hev⟩ := hcause
    rw [Effect.posted] at h
    split at h
    · obtain ⟨rfl, -⟩ : k = .connDone ∧ _ := by simpa using h
      exact ⟨⟨ht, hi, hsw, hinit hev (by simp)⟩, Or.inr ⟨‹_›, Or.inl ⟨hs, hev⟩⟩⟩
    · simp at h
  | scanAnswer j =>
    rw [Effect.posted] at h
    split at h
    · obtain ⟨rfl, -⟩ : k = .scanDone ∧ _ := by simpa using h
      exact ⟨‹_›, hanswer j rfl⟩
    · simp at h
  | start k' s j =>
    obtain ⟨rfl, -⟩ : k = k' ∧ r = j := by simpa [Effect.posted] using h
    rcases hcause with ⟨rfl, hstart⟩ | ⟨rfl, hstart⟩ <;> exact hstart
  | nothing => simp [Effect.posted] at h
  | enter s => simp [Effect.posted] at h
  | reset => simp [Effect.posted] at h

end Answers

/-! ### Codes -/

/-- The call and the kind of the next fetch, once the flush is over. -/
def CallCode.awaits : CallCode → Option (ℕ × WaitKind)
  | fetch n evt _ => some (n, evt)
  | send _ sent _ => sent.awaits
  | scanBlock _ next | lastReason _ next => next.awaits
  | ret _ | malloc _ _ | ifMode _ _ _ | flush _ _ | enter _ => none

/-- The flush of the call `n` is not over yet. -/
def CallCode.mayFlush (n : ℕ) : CallCode → Prop
  | ret _ | enter _ => False
  | malloc p q | ifMode _ p q | send _ p q => p.mayFlush n ∨ q.mayFlush n
  | scanBlock _ p | lastReason _ p => p.mayFlush n
  | flush j p => j = n ∨ p.mayFlush n
  | fetch _ _ f => ∃ r, (f r).mayFlush n

/-- The code is that of the call `n`: every operation is under its number, and nothing is fetched
that has not been flushed for. -/
def CallCode.Proper (n : ℕ) : CallCode → Prop
  | ret _ => True
  | malloc p q | ifMode _ p q => (p.Proper n ∧ p.awaits = none) ∧ q.Proper n ∧ q.awaits = none
  | scanBlock _ p | lastReason _ p => p.Proper n
  | flush j p => j = n ∧ p.Proper n
  | send msg p q => (msg.call = none ∨ msg.call = some n) ∧ p.Proper n ∧ q.Proper n ∧ q.awaits = none
  | fetch j _ f => j = n ∧ ∀ r, (f r).Proper n ∧ (f r).awaits = none
  | enter f => ∀ j, (f j).Proper j ∧ (f j).awaits = none

theorem CallCode.Proper.of_awaits {k : WaitKind} {p : CallCode} (hp : p.Proper n)
    (h : p.awaits = some (j, k)) : j = n := by
  induction p with
  | fetch i evt f =>
    simp only [awaits, Option.some.injEq, Prod.mk.injEq] at h
    exact h.1 ▸ hp.1
  | send msg p q ihp => exact ihp hp.2.1 h
  | scanBlock b p ih => exact ih hp h
  | lastReason r p ih => exact ih hp h
  | _ => cases h

theorem CallCode.Proper.of_mayFlush {p : CallCode} (hp : p.Proper n)
    (h : p.mayFlush j) : j = n := by
  induction p with
  | ret v => cases h
  | enter f => cases h
  | malloc p q ihp ihq => exact h.elim (ihp hp.1.1) (ihq hp.2.1)
  | ifMode t p q ihp ihq => exact h.elim (ihp hp.1.1) (ihq hp.2.1)
  | send msg p q ihp ihq => exact h.elim (ihp hp.2.1) (ihq hp.2.2.1)
  | scanBlock b p ih => exact ih hp h
  | lastReason r p ih => exact ih hp h
  | flush i p ih => exact h.elim (fun h => h ▸ hp.1) (ih hp.2)
  | fetch i evt f ih =>
    obtain ⟨r, h⟩ := h
    exact ih r (hp.2 r).1 h

theorem proper_scanCode (n : ℕ) (b : Bool) (ssid : List ℕ) : (scanCode n b ssid).Proper n := by
  refine ⟨rfl, Or.inr rfl, ?_, trivial, rfl⟩
  cases b
  · trivial
  · exact ⟨rfl, fun r => ⟨trivial, rfl⟩⟩

theorem proper_disconnectCode {next : ℤ → CallCode}
    (h : ∀ r, (next r).Proper n ∧ (next r).awaits = none) : (disconnectCode n next).Proper n :=
  ⟨⟨⟨rfl, Or.inr rfl, ⟨rfl, fun r => ⟨(h r).1, (h r).2⟩⟩, (h (-1)).1, (h (-1)).2⟩, rfl⟩,
    (h 0).1, (h 0).2⟩

theorem proper_connectEnd (n r : ℕ) :
    (connectEnd r).Proper n ∧ (connectEnd r).awaits = none := by
  rw [connectEnd]
  split
  · refine ⟨fun j => ⟨proper_disconnectCode fun _ => ⟨trivial, rfl⟩, rfl⟩, rfl⟩
  · exact ⟨trivial, rfl⟩

theorem proper_monitorCode (n : ℕ) : (monitorCode n).Proper n :=
  ⟨Or.inl rfl, ⟨⟨⟨Or.inr rfl, ⟨rfl, rfl, fun _ => ⟨trivial, rfl⟩⟩, trivial, rfl⟩, rfl⟩,
    trivial, rfl⟩, trivial, rfl⟩

theorem proper_wifiManagementScan (n : ℕ) (b : Bool) (ssid : List ℕ) :
    (wifiManagementScan b ssid n).Proper n ∧ (wifiManagementScan b ssid n).awaits = none := by
  rw [wifiManagementScan]
  split
  · exact ⟨⟨⟨proper_scanCode n b ssid, rfl⟩, trivial, rfl⟩, rfl⟩
  · exact ⟨proper_scanCode n b ssid, rfl⟩

theorem proper_wifiManagementConnect (n : ℕ) (ssid password : Option (List ℕ)) (b : Bool) :
    (wifiManagementConnect ssid password b n).Proper n ∧
      (wifiManagementConnect ssid password b n).awaits = none := by
  rw [wifiManagementConnect]
  split
  · exact ⟨trivial, rfl⟩
  split
  · exact ⟨trivial, rfl⟩
  refine ⟨⟨Or.inl rfl, ⟨⟨⟨rfl, Or.inr rfl, ?_, trivial, rfl⟩, rfl⟩, trivial, rfl⟩,
    trivial, rfl⟩, rfl⟩
  cases b
  · trivial
  · exact ⟨rfl, proper_connectEnd n⟩

theorem proper_wifiManagementApStart (n : ℕ) (ssid passwd : Option (List ℕ)) (channel : ℕ) :
    (wifiManagementApStart ssid passwd channel n).Proper n ∧
      (wifiManagementApStart ssid passwd channel n).awaits = none := by
  rw [wifiManagementApStart]
  split
  · exact ⟨trivial, rfl⟩
  split
  · exact ⟨trivial, rfl⟩
  split
  · exact ⟨trivial, rfl⟩
  have hstart : (CallCode.send (switchMessage .ap) (.malloc
        (.flush n <| .send ⟨.startApCmd, 0, some .other, some n⟩
          (.fetch n .apStartDone fun reason => .ret (if reason ≠ 0 then -9 else 0))
          (.ret (-8)))
        (.ret (-7)))
      (.ret (-6))).Proper n :=
    ⟨Or.inl rfl, ⟨⟨⟨rfl, Or.inr rfl, ⟨rfl, fun _ => ⟨trivial, rfl⟩⟩, trivial, rfl⟩, rfl⟩,
      trivial, rfl⟩, trivial, rfl⟩
  exact ⟨⟨Or.inl rfl, hstart, hstart, rfl⟩, rfl⟩

/-- **Every call runs under its number, and flushes before it fetches.** -/
theorem proper_code (n : ℕ) (call : Call) :
    (call.code n).Proper n ∧ (call.code n).awaits = none := by
  cases call with
  | scan b ssid => exact proper_wifiManagementScan n b ssid
  | connect ssid password b => exact proper_wifiManagementConnect n ssid password b
  | disconnect => exact ⟨proper_disconnectCode fun _ => ⟨trivial, rfl⟩, rfl⟩
  | apStart ssid passwd channel => exact proper_wifiManagementApStart n ssid passwd channel
  | monitorStart =>
    exact ⟨⟨⟨⟨Or.inl rfl, proper_monitorCode n, trivial, rfl⟩, rfl⟩, proper_monitorCode n, rfl⟩, rfl⟩
  | staStart => exact ⟨⟨Or.inl rfl, trivial, trivial, rfl⟩, rfl⟩
  | staAutoConnect =>
    exact ⟨⟨Or.inl rfl, ⟨Or.inl rfl, trivial, trivial, rfl⟩, trivial, rfl⟩, rfl⟩

/-! ### The order of the calls -/

/-- The last call taken after a message. -/
def servedAfter (msg : Message) (m : Mgmt) : Option ℕ :=
  if msg.call.isSome then msg.call else m.served

/-- The call `n`, or one after it. -/
def atLeast (n : ℕ) (o : Option ℕ) : Prop := ∃ j, o = some j ∧ n ≤ j

/-- The commands of calls that have been taken last or are queued, oldest first. -/
def commands (m : Mgmt) : List ℕ := m.served.toList ++ m.queue.filterMap Message.call

section Frames

variable {e : MgmtEnv} {r : ℕ} {p : Option MgmtParam} {c : Callers}

theorem served_postConn (r : ℕ) (c : Callers) :
    (c.postConn r).served = c.served ∧ (c.postConn r).connectedFor = c.connectedFor := by
  rw [Callers.postConn]
  split <;> exact ⟨rfl, rfl⟩

/-- An effect takes no command, and notes the last one when the connection is there. -/
theorem Effect.served_apply (eff : Effect) :
    (eff.apply r p c).served = c.served ∧
      (eff.apply r p c).connectedFor = if eff = .connected then c.served else c.connectedFor := by
  cases eff with
  | giveUp => exact served_postConn r c
  | connected => exact served_postConn _ _
  | scanAnswer k =>
    rw [Effect.apply, Callers.postScan]
    split <;> exact ⟨rfl, rfl⟩
  | accept b => rcases p with _ | _ | _ | _ <;> cases b <;> exact ⟨rfl, rfl⟩
  | _ => exact ⟨rfl, rfl⟩

theorem served_switchMode (t : WvifType) :
    (c.switchMode e t).served = c.served ∧ (c.switchMode e t).connectedFor = c.connectedFor := by
  have hleave : (c.leave e).served = c.served ∧ (c.leave e).connectedFor = c.connectedFor := by
    rw [Callers.leave]
    split <;> exact ⟨rfl, rfl⟩
  rw [Callers.switchMode]
  split
  · exact ⟨rfl, rfl⟩
  · exact hleave

end Frames

section Frames

variable {e : MgmtEnv} {msg : Message} {rest : List Message} {m : Mgmt}

theorem served_handleMessage : (handleMessage e msg rest m).1.served = servedAfter msg m := by
  have hrun := congrArg Callers.served
    (callers_runStateMachine e (taken msg rest { m with wait := [] }))
  refine Eq.trans (show _ = _ from hrun) ?_
  split
  · exact (served_switchMode _).1
  · exact (Effect.served_apply _).1

theorem connectedFor_handleMessage :
    (handleMessage e msg rest m).1.connectedFor = m.connectedFor ∨
      (handleMessage e msg rest m).1.connectedFor = servedAfter msg m := by
  have hrun := congrArg Callers.connectedFor
    (callers_runStateMachine e (taken msg rest { m with wait := [] }))
  have hu : (handleMessage e msg rest m).1.connectedFor = _ := hrun
  rw [hu]
  split
  · exact Or.inl (served_switchMode _).2
  · rw [(Effect.served_apply _).2]
    split
    · exact Or.inr rfl
    · exact Or.inl rfl

/-- The commands of calls are taken in order, and the machines send none. -/
theorem commands_handleMessage :
    commands (handleMessage e msg rest m).1 =
      (servedAfter msg m).toList ++ rest.filterMap Message.call := by
  have hq : Grows rest (handleMessage e msg rest m).1.queue :=
    queue_runStateMachine e (taken msg rest { m with wait := [] })
  rw [commands, served_handleMessage, hq.filterMap_call]

theorem atLeast_mono {o : Option ℕ} (h : atLeast j o) (hn : n ≤ j) : atLeast n o := by
  obtain ⟨i, hi, hj⟩ := h
  exact ⟨i, hi, le_trans hn hj⟩

theorem commands_cons (hq : m.queue = msg :: rest) :
    commands m = m.served.toList ++ (msg.call.toList ++ rest.filterMap Message.call) := by
  rw [commands, hq]
  cases h : msg.call <;> simp [h]

theorem servedAfter_sublist (hq : m.queue = msg :: rest) :
    ((servedAfter msg m).toList ++ rest.filterMap Message.call).Sublist (commands m) := by
  rw [commands_cons hq, servedAfter]
  cases h : msg.call with
  | none => simp
  | some j => simp

/-- The last call that has been taken only goes up. -/
theorem atLeast_servedAfter (hq : m.queue = msg :: rest)
    (hs : (commands m).Pairwise (· ≤ ·)) (h : atLeast n m.served) :
    atLeast n (servedAfter msg m) := by
  obtain ⟨i, hi, hn⟩ := h
  rw [servedAfter]
  cases hc : msg.call with
  | none => exact ⟨i, hi, hn⟩
  | some j =>
    refine ⟨j, rfl, le_trans hn ?_⟩
    rw [commands_cons hq, hi, hc] at hs
    exact rel_of_pairwise_cons hs (by simp)

end Frames

/-- The calls are taken in the order in which they started. -/
structure Ordered (s : World) : Prop where
  sorted : (commands s.m).Pairwise (· ≤ ·)
  /-- They are those of calls that have started. -/
  fresh : ∀ n ∈ commands s.m, n < s.calls
  /-- An answer is that of a call that has been taken. -/
  events : ∀ w ∈ s.m.wait ++ s.posting, ∀ n, w.serving = some n ∨ w.served = some n →
    atLeast n s.m.served
  /-- So is the call `CONNECTED` was entered for. -/
  connected : ∀ n, s.m.connectedFor = some n → atLeast n s.m.served
  /-- The application runs the code of the last call. -/
  code : ∀ a, s.app = some a → ∃ n, n + 1 = s.calls ∧ a.number ≤ n ∧ a.code.Proper n

theorem ordered_init (autoConn : Bool) : Ordered (worldInit autoConn) where
  sorted := by cases autoConn <;> simp [worldInit, commands, wifiManagementInit]
  fresh := by cases autoConn <;> simp [worldInit, commands, wifiManagementInit]
  events := by simp [worldInit, wifiManagementInit]
  connected n h := by cases h
  code a h := by cases h

/-- What the next operation of the call `a`, under the number `n`, can do. -/
structure AppNext (n : ℕ) (a : AppCall) (s u : World) : Prop where
  /-- It posts nothing, and takes answers from the queue. -/
  posting : u.posting = s.posting
  wait : u.m.wait ⊆ s.m.wait
  /-- It takes no command, and sends its own. -/
  served : u.m.served = s.m.served ∧ u.m.connectedFor = s.m.connectedFor
  commands : commands u.m = commands s.m ∨ commands u.m = Wifi.commands s.m ++ [n]
  calls : s.calls ≤ u.calls
  /-- It goes on with code that awaits nothing new, unless the flush is over, and that flushes
  for nothing new, unless another call starts. -/
  code : u.app = none ∨ ∃ q j, u.app = some { a with code := q } ∧ n ≤ j ∧ j + 1 = u.calls ∧
    q.Proper j ∧ (q.awaits = none ∨ q.awaits = a.code.awaits ∨
      ∃ i, a.code = .flush i q ∧ s.m.wait = []) ∧
    ∀ i, q.mayFlush i → a.code.mayFlush i ∨ i = s.calls

theorem commands_pushQueue {msg : Message} {m : Mgmt}
    (h : msg.call = none ∨ msg.call = some n) :
    commands (eloopMessageSend msg m).2 = commands m ∨
      commands (eloopMessageSend msg m).2 = commands m ++ [n] := by
  have hq : (eloopMessageSend msg m).2.queue = pushQueue m.queue msg := rfl
  have hs : (eloopMessageSend msg m).2.served = m.served := rfl
  simp only [commands, hq, hs, pushQueue]
  split
  · rcases h with h | h
    · exact Or.inl (by simp [h])
    · exact Or.inr (by simp [h])
  · exact Or.inl rfl

/-- **One operation of a call.** -/
theorem appNext_appStep {s u : World} (hn : n + 1 = s.calls)
    (hp : a.code.Proper n) (happ : s.app = some a) (h : appStep b a s = some u) :
    AppNext n a s u := by
  have hsame (q : CallCode) (hq : q.Proper n)
      (hawaits : q.awaits = none ∨ q.awaits = a.code.awaits ∨
        ∃ i, a.code = .flush i q ∧ s.m.wait = [])
      (hflush : ∀ i, q.mayFlush i → a.code.mayFlush i) :
      ∃ q' j, (s.goOn a q).app = some { a with code := q' } ∧ n ≤ j ∧ j + 1 = s.calls ∧
        q'.Proper j ∧ (q'.awaits = none ∨ q'.awaits = a.code.awaits ∨
          ∃ i, a.code = .flush i q' ∧ s.m.wait = []) ∧
        ∀ i, q'.mayFlush i → a.code.mayFlush i ∨ i = s.calls :=
    ⟨q, n, rfl, le_refl n, hn, hq, hawaits, fun i hi => Or.inl (hflush i hi)⟩
  have hstay : s.app = some { a with code := a.code } := happ
  have hself := hsame a.code hp (Or.inr (Or.inl rfl)) (fun _ h => h)
  rw [World.goOn, ← hstay] at hself
  rw [appStep] at h
  rcases hc : a.code with v | ⟨p, q⟩ | ⟨t, p, q⟩ | ⟨c, p⟩ | ⟨r, p⟩ | ⟨j, p⟩ | ⟨msg, p, q⟩ |
    ⟨j, k, f⟩ | f <;> simp only [hc] at h hp hsame
  · cases h
    exact ⟨rfl, List.Subset.refl _, ⟨rfl, rfl⟩, Or.inl rfl, le_refl _, Or.inl rfl⟩
  · cases h
    refine ⟨rfl, List.Subset.refl _, ⟨rfl, rfl⟩, Or.inl rfl, le_refl _, Or.inr ?_⟩
    rw [hc]
    cases b
    · exact hsame q hp.2.1 (Or.inl hp.2.2) fun _ => Or.inr
    · exact hsame p hp.1.1 (Or.inl hp.1.2) fun _ => Or.inl
  · cases h
    refine ⟨rfl, List.Subset.refl _, ⟨rfl, rfl⟩, Or.inl rfl, le_refl _, Or.inr ?_⟩
    rw [hc]
    split
    · exact hsame p hp.1.1 (Or.inl hp.1.2) fun _ => Or.inl
    · exact hsame q hp.2.1 (Or.inl hp.2.2) fun _ => Or.inr
  · cases h
    refine ⟨rfl, List.Subset.refl _, ⟨rfl, rfl⟩, Or.inl rfl, le_refl _, Or.inr ?_⟩
    rw [hc]
    exact hsame p hp (Or.inr (Or.inl rfl)) fun _ h => h
  · cases h
    refine ⟨rfl, List.Subset.refl _, ⟨rfl, rfl⟩, Or.inl rfl, le_refl _, Or.inr ?_⟩
    rw [hc]
    exact hsame p hp (Or.inr (Or.inl rfl)) fun _ h => h
  · rcases hw : s.m.wait with _ | ⟨w, wait⟩ <;> simp only [hw] at h <;> cases h
    · refine ⟨rfl, List.Subset.refl _, ⟨rfl, rfl⟩, Or.inl rfl, le_refl _, Or.inr ?_⟩
      rw [hc]
      exact hsame p hp.2 (Or.inr (Or.inr ⟨j, rfl, hw⟩)) fun _ => Or.inr
    · refine ⟨rfl, ?_, ⟨rfl, rfl⟩, Or.inl rfl, le_refl _, Or.inr ?_⟩
      · rw [hw]
        exact subset_cons_self _ _
      · exact hself
  · cases h
    refine ⟨rfl, List.Subset.refl _, ⟨rfl, rfl⟩, commands_pushQueue hp.1, le_refl _, Or.inr ?_⟩
    rw [hc]
    split
    · exact hsame p hp.2.1 (Or.inr (Or.inl rfl)) fun _ => Or.inl
    · exact hsame q hp.2.2.1 (Or.inl hp.2.2.2) fun _ => Or.inr
  · have hf (r : ℕ) := hsame (f r) (hp.2 r).1 (Or.inl (hp.2 r).2) fun _ h => ⟨r, h⟩
    rcases hw : s.m.wait with _ | ⟨w, wait⟩ <;> simp only [hw] at h
    · split at h
      · cases h
        refine ⟨rfl, List.Subset.refl _, ⟨rfl, rfl⟩, Or.inl rfl, le_refl _, Or.inr ?_⟩
        rw [hc]
        exact hf fetchTimeout
      · cases h
    · have hwait : wait ⊆ s.m.wait := by
        rw [hw]
        exact subset_cons_self _ _
      split at h <;> cases h
      · refine ⟨rfl, hwait, ⟨rfl, rfl⟩, Or.inl rfl, le_refl _, Or.inr ?_⟩
        rw [hc]
        exact hf w.reason
      · exact ⟨rfl, hwait, ⟨rfl, rfl⟩, Or.inl rfl, le_refl _, Or.inr hself⟩
  · cases h
    refine ⟨rfl, List.Subset.refl _, ⟨rfl, rfl⟩, Or.inl rfl, Nat.le_succ _, Or.inr ?_⟩
    obtain ⟨hj, hawaits⟩ := hp s.calls
    exact ⟨f s.calls, s.calls, rfl, by omega, rfl, hj, Or.inl hawaits,
      fun i hi => Or.inr (hj.of_mayFlush hi)⟩

/-! ### The steps of the two tasks -/

section Steps

variable {s u : World}

theorem mem_pushWait {v : WaitEvt} {ws : List WaitEvt} (h : v ∈ pushWait ws w) :
    v ∈ ws ∨ v = w := by
  rw [pushWait] at h
  split at h
  · simpa using h
  · exact Or.inl h

theorem worldStep_dispatch {e : MgmtEnv} (h : worldStep (.dispatch e) s = some u) :
    ∃ msg rest, s.posting = [] ∧ s.m.queue = msg :: rest ∧ u = { s with
      m := (handleMessage e msg rest s.m).1, posting := (handleMessage e msg rest s.m).2 } := by
  rcases hposting : s.posting with _ | ⟨w, posting⟩
  · rcases hq : s.m.queue with _ | ⟨msg, rest⟩
    · simp [worldStep, hposting, hq] at h
    · simp only [worldStep, hposting, hq, Option.some.injEq] at h
      exact ⟨msg, rest, rfl, rfl, h.symm⟩
  · simp [worldStep, hposting] at h

theorem worldStep_post (h : worldStep .post s = some u) :
    ∃ w posting, s.posting = w :: posting ∧
      u = { s with m := { s.m with wait := pushWait s.m.wait w }, posting := posting } := by
  rcases hposting : s.posting with _ | ⟨w, posting⟩
  · simp [worldStep, hposting] at h
  · simp only [worldStep, hposting, Option.some.injEq] at h
    exact ⟨w, posting, rfl, h.symm⟩

/-- A callback posts nothing and takes nothing. -/
theorem worldStep_expire {t : MgmtTimer} {e : MgmtEnv} (h : worldStep (.expire t e) s = some u) :
    ∃ v, u = { s with m := v } ∧ Grows s.m.queue v.queue ∧ v.wait = s.m.wait ∧
      v.served = s.m.served ∧ v.connectedFor = s.m.connectedFor ∧
      v.cfg.connBlocked = s.m.cfg.connBlocked := by
  simp only [worldStep] at h
  split at h
  · cases h
    have hc := callers_mgmtTimeout e { s.m with timeout := s.m.timeout.erase t } t
    refine ⟨_, rfl, queue_mgmtTimeout e { s.m with timeout := s.m.timeout.erase t } t, ?_⟩
    split at hc <;> exact ⟨congrArg Callers.wait hc, congrArg Callers.served hc,
      congrArg Callers.connectedFor hc, congrArg Callers.conn hc⟩
  · cases h

theorem worldStep_start {call : Call} (h : worldStep (.start call) s = some u) :
    s.app = none ∧
      u = { s with app := some ⟨call, s.calls, call.code s.calls⟩, calls := s.calls + 1 } := by
  rcases happ : s.app with _ | a
  · simp only [worldStep, happ, Option.some.injEq] at h
    exact ⟨rfl, h.symm⟩
  · simp [worldStep, happ] at h

theorem worldStep_app (h : worldStep (.app b) s = some u) :
    ∃ a, s.app = some a ∧ appStep b a s = some u :=
  Option.bind_eq_some_iff.mp h

end Steps

section Ordered

variable {s u : World}

/-- The answers of a message are those of the call it is the command of. -/
theorem mem_posting_handleMessage {e : MgmtEnv} {msg : Message} {rest : List Message} {m : Mgmt} (h : w ∈ (handleMessage e msg rest m).2) :
    w.serving = msg.call ∧ w.served = servedAfter msg m ∧
      (w.evt, w.reason) ∈ messagePosted e (taken msg rest m) := by
  rw [posting_handleMessage, mem_map] at h
  obtain ⟨⟨k, r⟩, hk, rfl⟩ := h
  exact ⟨rfl, rfl, hk⟩

/-- What handling a message does to the order of the calls. -/
theorem ordered_dispatch {e : MgmtEnv} {msg : Message} {rest : List Message} (h : Ordered s)
    (hq : s.m.queue = msg :: rest) :
    Ordered { s with
      m := (handleMessage e msg rest s.m).1, posting := (handleMessage e msg rest s.m).2 } where
  sorted := by
    show (commands (handleMessage e msg rest s.m).1).Pairwise _
    rw [commands_handleMessage]
    exact h.sorted.sublist (servedAfter_sublist hq)
  fresh n hn := by
    refine h.fresh n ((servedAfter_sublist hq).subset ?_)
    rwa [← commands_handleMessage]
  events w hw n hn := by
    show atLeast n (handleMessage e msg rest s.m).1.served
    rw [served_handleMessage]
    rcases mem_append.mp hw with hw | hw
    · exact atLeast_servedAfter hq h.sorted
        (h.events w (mem_append_left _ hw) n hn)
    · obtain ⟨hserving, hserved, -⟩ := mem_posting_handleMessage hw
      rcases hn with hn | hn
      · refine ⟨n, ?_, le_refl n⟩
        rw [servedAfter, ← hserving, hn]
        rfl
      · exact ⟨n, hserved ▸ hn, le_refl n⟩
  connected n hn := by
    show atLeast n (handleMessage e msg rest s.m).1.served
    rw [served_handleMessage]
    rcases connectedFor_handleMessage (e := e) (m := s.m) with hc | hc
    · exact atLeast_servedAfter hq h.sorted (h.connected n (hc ▸ hn))
    · exact ⟨n, hc ▸ hn, le_refl n⟩
  code := h.code

/-- A step that takes no command, and sends none but that of the last call. -/
theorem ordered_of_same (h : Ordered s)
    (hserved : u.m.served = s.m.served ∧ u.m.connectedFor = s.m.connectedFor)
    (hcommands : commands u.m = commands s.m ∨
      ∃ n, n + 1 = s.calls ∧ commands u.m = commands s.m ++ [n])
    (hwait : u.m.wait ++ u.posting ⊆ s.m.wait ++ s.posting) (hcalls : s.calls ≤ u.calls)
    (hcode : ∀ a, u.app = some a → ∃ n, n + 1 = u.calls ∧ a.number ≤ n ∧ a.code.Proper n) :
    Ordered u where
  sorted := by
    rcases hcommands with hc | ⟨n, hn, hc⟩ <;> rw [hc]
    · exact h.sorted
    · refine pairwise_append.mpr ⟨h.sorted, by simp, fun i hi j hj => ?_⟩
      have := h.fresh i hi
      obtain rfl : j = n := by simpa using hj
      omega
  fresh i hi := by
    rcases hcommands with hc | ⟨n, hn, hc⟩ <;> rw [hc] at hi
    · exact lt_of_lt_of_le (h.fresh i hi) hcalls
    · rcases mem_append.mp hi with hi | hi
      · exact lt_of_lt_of_le (h.fresh i hi) hcalls
      · obtain rfl : i = n := by simpa using hi
        omega
  events w hw n hn := by
    rw [hserved.1]
    exact h.events w (hwait hw) n hn
  connected n hn := by
    rw [hserved.1]
    exact h.connected n (hserved.2 ▸ hn)
  code := hcode

/-- **Every step keeps the calls in order.** -/
theorem ordered_worldStep (h : Ordered s) (hi : worldStep i s = some u) :
    Ordered u := by
  cases i with
  | send msg =>
    cases hi
    refine ordered_of_same h ⟨rfl, rfl⟩ (Or.inl ?_) (List.Subset.refl _) (le_refl _) h.code
    show _ ++ (eloopMessageSend { msg with call := none } s.m).2.queue.filterMap _ = _
    rw [(queue_send s.m rfl).filterMap_call]
    rfl
  | dispatch e =>
    obtain ⟨msg, rest, -, hq, rfl⟩ := worldStep_dispatch hi
    exact ordered_dispatch h hq
  | post =>
    obtain ⟨w, posting, hposting, rfl⟩ := worldStep_post hi
    refine ordered_of_same h ⟨rfl, rfl⟩ (Or.inl rfl) (fun v hv => ?_) (le_refl _) h.code
    rw [hposting]
    rcases mem_append.mp hv with hv | hv
    · rcases mem_pushWait hv with hv | rfl
      · exact mem_append_left _ hv
      · simp
    · exact mem_append_right _ (mem_cons_of_mem _ hv)
  | expire t e =>
    obtain ⟨v, rfl, hq, hwait, hserved, hconnected, -⟩ := worldStep_expire hi
    refine ordered_of_same h ⟨hserved, hconnected⟩ (Or.inl ?_) ?_ (le_refl _) h.code
    · show v.served.toList ++ v.queue.filterMap _ = _
      rw [hserved, hq.filterMap_call]
      rfl
    · show v.wait ++ s.posting ⊆ _
      rw [hwait]
      exact List.Subset.refl _
  | start call =>
    obtain ⟨-, rfl⟩ := worldStep_start hi
    refine ordered_of_same h ⟨rfl, rfl⟩ (Or.inl rfl) (List.Subset.refl _) (Nat.le_succ _) ?_
    rintro a ha
    cases ha
    exact ⟨s.calls, rfl, le_refl _, (proper_code s.calls call).1⟩
  | app b =>
    obtain ⟨a, happ, hi⟩ := worldStep_app hi
    obtain ⟨n, hn, hnum, hp⟩ := h.code a happ
    have hnext := appNext_appStep hn hp happ hi
    refine ordered_of_same h hnext.served ?_ ?_ hnext.calls ?_
    · exact hnext.commands.imp_right fun hc => ⟨n, hn, hc⟩
    · rw [hnext.posting]
      exact append_subset.mpr ⟨fun v hv => mem_append_left _ (hnext.wait hv),
        subset_append_right _ _⟩
    · rintro a' ha'
      rcases hnext.code with hnone | ⟨q, j, happ', hj, hj', hq, -⟩
      · rw [hnone] at ha'
        cases ha'
      · rw [happ'] at ha'
        cases ha'
        exact ⟨j, hj', le_trans hnum hj, hq⟩

end Ordered

/-! ### Own answers -/

/-- A call gets its own answer. -/
structure OwnAnswers (s : World) : Prop where
  /-- Its flush does not remove the answer to its command. -/
  flush : ∀ a n q w ws, s.app = some a → a.code = .flush n q → s.m.wait = w :: ws →
    w.serving ≠ some n
  /-- Its fetch does not take an answer that was posted before its command was taken. -/
  fetch : ∀ a n k f w ws, s.app = some a → a.code = .fetch n k f → s.m.wait = w :: ws →
    w.evt = k → atLeast n w.served
  /-- When the wait of `wifi_management_disconnect` has ended with 0, its command was taken. -/
  disconnect : ∀ a, s.app = some a → a.call = .disconnect → a.code = .lastReason 0 (.ret 0) →
    atLeast a.number s.m.served

/-- No answer comes at the wrong time: between the flush of a call and the fetch, no message that
is older than the command of the call is answered with the kind the call waits for, or is still
being answered when the flush ends; and the answer to the command is not posted while the flush
is going on or still to come. -/
def WorldStep.Timely (s : World) : WorldStep → Prop
  | .dispatch e => ∀ msg rest a n k, s.m.queue = msg :: rest → s.app = some a →
    a.code.awaits = some (n, k) → answersWith e msg s.m k → atLeast n (servedAfter msg s.m)
  | .app _ => ∀ a n q, s.app = some a → a.code = .flush n q → s.m.wait = [] →
    ∀ w ∈ s.posting, q.awaits = some (n, w.evt) → atLeast n w.served
  | .post => ∀ a n w ws, s.app = some a → a.code.mayFlush n → s.posting = w :: ws →
    w.serving ≠ some n
  | _ => True

/-- What is kept of the answers, with the order of the calls. -/
structure Apart (s : World) : Prop extends Ordered s where
  /-- With the flush over, every answer of the kind is to the command, or to a later one. -/
  awaited : ∀ a n k, s.app = some a → a.code.awaits = some (n, k) → ∀ w ∈ s.m.wait ++ s.posting,
    w.evt = k → atLeast n w.served
  /-- With the flush to come, none of those posted is to the command. -/
  flushed : ∀ a n, s.app = some a → a.code.mayFlush n → ∀ w ∈ s.m.wait, w.serving ≠ some n

section Apart

variable {s u : World}

/-- No call is taken before it starts. -/
theorem Ordered.serving_lt (h : Ordered s) (hw : w ∈ s.m.wait ++ s.posting)
    (hn : w.serving = some n) : n < s.calls := by
  obtain ⟨j, hj, hnj⟩ := h.events w hw n (Or.inl hn)
  have := h.fresh j (by simp [commands, hj])
  omega

/-- Where an answer can come from that a call waits for: it was there before; it is one to the
message that has just been taken; or the flush has just ended before it was posted. -/
theorem awaited_cases (h : Ordered s) (hi : worldStep i s = some u) {k : WaitKind} (happ : u.app = some a)
    (hawaits : a.code.awaits = some (n, k)) (hw : w ∈ u.m.wait ++ u.posting) :
    (∃ a', s.app = some a' ∧ a'.code.awaits = some (n, k) ∧ w ∈ s.m.wait ++ s.posting) ∨
    (∃ e msg rest, i = .dispatch e ∧ s.app = some a ∧ s.m.queue = msg :: rest ∧
      w ∈ (handleMessage e msg rest s.m).2 ∧ u.m = (handleMessage e msg rest s.m).1) ∨
    ∃ b a' q, i = .app b ∧ s.app = some a' ∧ a'.code = .flush n q ∧ q.awaits = some (n, k) ∧
      s.m.wait = [] ∧ w ∈ s.posting := by
  cases i with
  | send msg =>
    cases hi
    exact Or.inl ⟨a, happ, hawaits, hw⟩
  | dispatch e =>
    obtain ⟨msg, rest, -, hq, rfl⟩ := worldStep_dispatch hi
    rcases mem_append.mp hw with hw | hw
    · exact Or.inl ⟨a, happ, hawaits, mem_append_left _ hw⟩
    · exact Or.inr (Or.inl ⟨e, msg, rest, rfl, happ, hq, hw, rfl⟩)
  | post =>
    obtain ⟨v, posting, hposting, rfl⟩ := worldStep_post hi
    refine Or.inl ⟨a, happ, hawaits, ?_⟩
    rw [hposting]
    rcases mem_append.mp hw with hw | hw
    · rcases mem_pushWait hw with hw | rfl
      · exact mem_append_left _ hw
      · simp
    · exact mem_append_right _ (mem_cons_of_mem _ hw)
  | expire t e =>
    obtain ⟨v, rfl, -, hwait, -⟩ := worldStep_expire hi
    exact Or.inl ⟨a, happ, hawaits, hwait ▸ hw⟩
  | start call =>
    obtain ⟨-, rfl⟩ := worldStep_start hi
    cases happ
    rw [(proper_code s.calls call).2] at hawaits
    cases hawaits
  | app b =>
    obtain ⟨a', happ', hi⟩ := worldStep_app hi
    obtain ⟨m, hm, -, hp⟩ := h.code a' happ'
    have hnext := appNext_appStep hm hp happ' hi
    have hmem : w ∈ s.m.wait ++ s.posting := by
      rw [hnext.posting] at hw
      rcases mem_append.mp hw with hw | hw
      · exact mem_append_left _ (hnext.wait hw)
      · exact mem_append_right _ hw
    rcases hnext.code with hnone | ⟨q, j, hq, -, -, -, hnew, -⟩
    · rw [hnone] at happ
      cases happ
    rw [hq] at happ
    cases happ
    rcases hnew with hnew | hnew | ⟨i, hflush, hwait⟩
    · rw [hnew] at hawaits
      cases hawaits
    · exact Or.inl ⟨a', happ', hnew ▸ hawaits, hmem⟩
    · -- the flush is over
      rw [hwait, nil_append] at hmem
      obtain rfl : n = m := (hflush ▸ hp : (CallCode.flush i q).Proper m).2.of_awaits hawaits
      obtain rfl : i = n := (hflush ▸ hp : (CallCode.flush i q).Proper n).1
      exact Or.inr (Or.inr ⟨b, a', q, rfl, happ', hflush, hawaits, hwait, hmem⟩)

/-- **Every timely step keeps the answers apart.** -/
theorem apart_worldStep (h : Apart s) (ht : i.Timely s)
    (hi : worldStep i s = some u) : Apart u := by
  refine { ordered_worldStep h.toOrdered hi with awaited := ?_, flushed := ?_ }
  · -- the kind a call waits for
    intro a n k happ hawaits w hw hk
    rcases awaited_cases h.toOrdered hi happ hawaits hw with ⟨a', happ', hawaits', hw'⟩ |
      ⟨e, msg, rest, rfl, happ', hq, hw', -⟩ | ⟨b, a', q, rfl, happ', hc, hawaits', hwait, hw'⟩
    · exact h.awaited a' n k happ' hawaits' w hw' hk
    · obtain ⟨-, hserved, hposted⟩ := mem_posting_handleMessage hw'
      rw [hserved]
      refine ht msg rest a n k hq happ' hawaits ?_
      exact hk ▸ answersWith_of_posted hposted
    · exact ht a' n q happ' hc hwait w hw' (hk ▸ hawaits')
  · -- the answer to the command
    intro a n happ hmay w hw
    cases i with
    | send msg =>
      cases hi
      exact h.flushed a n happ hmay w hw
    | dispatch e =>
      obtain ⟨msg, rest, -, -, rfl⟩ := worldStep_dispatch hi
      exact h.flushed a n happ hmay w hw
    | post =>
      obtain ⟨v, posting, hposting, rfl⟩ := worldStep_post hi
      rcases mem_pushWait hw with hw | rfl
      · exact h.flushed a n happ hmay w hw
      · exact ht a n w posting happ hmay hposting
    | expire t e =>
      obtain ⟨v, rfl, -, hwait, -⟩ := worldStep_expire hi
      exact h.flushed a n happ hmay w (hwait ▸ hw)
    | start call =>
      obtain ⟨-, rfl⟩ := worldStep_start hi
      cases happ
      obtain rfl : n = s.calls := (proper_code s.calls call).1.of_mayFlush hmay
      intro hserving
      exact absurd (h.serving_lt (mem_append_left _ hw) hserving) (lt_irrefl _)
    | app b =>
      obtain ⟨a', happ', hi⟩ := worldStep_app hi
      obtain ⟨m, hm, -, hp⟩ := h.code a' happ'
      have hnext := appNext_appStep hm hp happ' hi
      have hmem : w ∈ s.m.wait := hnext.wait hw
      rcases hnext.code with hnone | ⟨q, j, hq, -, -, -, -, hnew⟩
      · rw [hnone] at happ
        cases happ
      rw [hq] at happ
      cases happ
      rcases hnew n hmay with hold | rfl
      · exact h.flushed a' n happ' hold w hmem
      · intro hserving
        exact absurd (h.serving_lt (mem_append_left _ hmem) hserving) (lt_irrefl _)

end Apart

/-! ### The result of a disconnect -/

section Disconnect

variable {s u : World}

/-- The last call that has been taken only goes up. -/
theorem atLeast_worldStep (h : Ordered s) (hi : worldStep i s = some u)
    (hn : atLeast n s.m.served) : atLeast n u.m.served := by
  cases i with
  | send msg =>
    cases hi
    exact hn
  | dispatch e =>
    obtain ⟨msg, rest, -, hq, rfl⟩ := worldStep_dispatch hi
    show atLeast n (handleMessage e msg rest s.m).1.served
    rw [served_handleMessage]
    exact atLeast_servedAfter hq h.sorted hn
  | post =>
    obtain ⟨w, posting, -, rfl⟩ := worldStep_post hi
    exact hn
  | expire t e =>
    obtain ⟨v, rfl, -, -, hserved, -⟩ := worldStep_expire hi
    exact hserved.symm ▸ hn
  | start call =>
    obtain ⟨-, rfl⟩ := worldStep_start hi
    exact hn
  | app b =>
    obtain ⟨a, happ, hi⟩ := worldStep_app hi
    obtain ⟨m, hm, -, hp⟩ := h.code a happ
    exact (appNext_appStep hm hp happ hi).served.1.symm ▸ hn

/-- The codes a disconnect goes through; when the wait has ended with 0, the call was taken. -/
def DisconnectAt (n : ℕ) (served : Option ℕ) (p : CallCode) : Prop :=
  let fetch := CallCode.fetch n .disconnDone fun ret => .lastReason 0 (.ret ret)
  let send := CallCode.send ⟨.disconnectCmd, 0, none, some n⟩ fetch (.ret (-1))
  p = wifiManagementDisconnect n ∨ p = .flush n send ∨ p = send ∨ p = fetch ∨
    (∃ r : ℤ, p = .lastReason 0 (.ret r) ∧ (r = 0 → atLeast n served)) ∨ ∃ r, p = .ret r

theorem disconnectAt_appStep
    (h : DisconnectAt n s.m.served a.code) (happ : s.app = some a)
    (hw : ∀ w ws k f, a.code = .fetch n k f → s.m.wait = w :: ws → w.evt = k → atLeast n s.m.served)
    (hi : appStep b a s = some u) :
    ∀ a', u.app = some a' → a'.number = a.number ∧ DisconnectAt n s.m.served a'.code := by
  intro a' ha'
  rw [appStep] at hi
  rcases h with hc | hc | hc | hc | ⟨r, hc, hr⟩ | ⟨r, hc⟩
  · rw [hc] at hi
    cases hi
    cases ha'
    refine ⟨rfl, ?_⟩
    split
    · exact Or.inr (Or.inl rfl)
    · exact Or.inr (Or.inr (Or.inr (Or.inr (Or.inr ⟨0, rfl⟩))))
  · rw [hc] at hi
    rcases hwait : s.m.wait with _ | ⟨w, ws⟩ <;> simp only [hwait] at hi <;> cases hi
    · cases ha'
      exact ⟨rfl, Or.inr (Or.inr (Or.inl rfl))⟩
    · rw [show a' = a from Option.some.inj (ha'.symm.trans happ)]
      exact ⟨rfl, hc ▸ Or.inr (Or.inl rfl)⟩
  · rw [hc] at hi
    cases hi
    cases ha'
    refine ⟨rfl, ?_⟩
    split
    · exact Or.inr (Or.inr (Or.inr (Or.inl rfl)))
    · exact Or.inr (Or.inr (Or.inr (Or.inr (Or.inr ⟨-1, rfl⟩))))
  · rw [hc] at hi
    rcases hwait : s.m.wait with _ | ⟨w, ws⟩ <;> simp only [hwait] at hi
    · split at hi
      · cases hi
        cases ha'
        refine ⟨rfl, Or.inr (Or.inr (Or.inr (Or.inr (Or.inl ⟨_, rfl, fun h => ?_⟩))))⟩
        exact absurd h (by decide)
      · cases hi
    · split at hi <;> cases hi
      · cases ha'
        exact ⟨rfl, Or.inr (Or.inr (Or.inr (Or.inr (Or.inl
          ⟨_, rfl, fun _ => hw w ws _ _ hc hwait ‹_›⟩))))⟩
      · rw [show a' = a from Option.some.inj (ha'.symm.trans happ)]
        exact ⟨rfl, hc ▸ Or.inr (Or.inr (Or.inr (Or.inl rfl)))⟩
  · rw [hc] at hi
    cases hi
    cases ha'
    exact ⟨rfl, Or.inr (Or.inr (Or.inr (Or.inr (Or.inr ⟨r, rfl⟩))))⟩
  · rw [hc] at hi
    cases hi
    cases ha'

theorem DisconnectAt.mono {o o' : Option ℕ} {p : CallCode} (h : DisconnectAt n o p)
    (ho : atLeast n o → atLeast n o') : DisconnectAt n o' p := by
  rcases h with h | h | h | h | ⟨r, h, hr⟩ | h
  · exact Or.inl h
  · exact Or.inr (Or.inl h)
  · exact Or.inr (Or.inr (Or.inl h))
  · exact Or.inr (Or.inr (Or.inr (Or.inl h)))
  · exact Or.inr (Or.inr (Or.inr (Or.inr (Or.inl ⟨r, h, fun h => ho (hr h)⟩))))
  · exact Or.inr (Or.inr (Or.inr (Or.inr (Or.inr h))))

/-- With the answers apart, an answer of the kind waited for comes after the command. -/
theorem Apart.atLeast_served (h : Apart s) {k : WaitKind}
    {f : ℕ → CallCode} {ws : List WaitEvt} (happ : s.app = some a)
    (hc : a.code = .fetch n k f) (hw : s.m.wait = w :: ws) (hk : w.evt = k) :
    atLeast n w.served ∧ atLeast n s.m.served := by
  have hmem : w ∈ s.m.wait ++ s.posting := by simp [hw]
  have hserved := h.awaited a n k happ (by rw [hc]; rfl) w hmem hk
  obtain ⟨j, hj, hn⟩ := hserved
  exact ⟨⟨j, hj, hn⟩, atLeast_mono (h.events w hmem j (Or.inr hj)) hn⟩

/-- What is kept of a disconnect. -/
def Disconnecting (s : World) : Prop :=
  ∀ a, s.app = some a → a.call = .disconnect → DisconnectAt a.number s.m.served a.code

end Disconnect

section Runs

variable {s u : World}

theorem disconnecting_worldStep (h : Disconnecting s) (ha : Apart s)
    (hi : worldStep i s = some u) : Disconnecting u := by
  have hmono (n : ℕ) := atLeast_worldStep (n := n) ha.toOrdered hi
  have hstay (happ : u.app = s.app) : Disconnecting u := by
    intro a happ' hcall
    exact (h a (happ ▸ happ') hcall).mono (hmono a.number)
  cases i with
  | send msg =>
    cases hi
    exact hstay rfl
  | dispatch e =>
    obtain ⟨msg, rest, -, -, rfl⟩ := worldStep_dispatch hi
    exact hstay rfl
  | post =>
    obtain ⟨w, posting, -, rfl⟩ := worldStep_post hi
    exact hstay rfl
  | expire t e =>
    obtain ⟨v, rfl, -⟩ := worldStep_expire hi
    exact hstay rfl
  | start call =>
    obtain ⟨-, rfl⟩ := worldStep_start hi
    rintro a happ hcall
    cases happ
    cases hcall
    exact Or.inl rfl
  | app b =>
    obtain ⟨a, happ, hi'⟩ := worldStep_app hi
    intro a' happ' hcall
    obtain ⟨m, hm, -, hp⟩ := ha.code a happ
    have hcall' : a.call = .disconnect := by
      rcases (appNext_appStep hm hp happ hi').code with hnone | ⟨q, j, hq, -⟩
      · rw [hnone] at happ'
        cases happ'
      · rw [hq] at happ'
        cases happ'
        exact hcall
    obtain ⟨hnum, hat⟩ := disconnectAt_appStep (h a happ hcall') happ (fun w ws k f hc hw hk =>
      (ha.atLeast_served happ hc hw hk).2) hi' a' happ'
    rw [hnum]
    exact hat.mono (hmono a.number)

end Runs

/-! ### Every run -/

theorem apart_init (autoConn : Bool) : Apart (worldInit autoConn) :=
  { ordered_init autoConn with
    awaited := fun a n k h => by cases h
    flushed := fun a n h => by cases h }

/-- A monitor is started, and the management task is faster than the application. -/
def fastMonitor : List WorldStep :=
  [.dispatch fairEnv, .post, .start .monitorStart, .app true, .app true, .app true, .app true,
    .dispatch fairEnv, .post, .dispatch fairEnv, .post, .app true, .app true]

end Wifi

end Gd32
