import Gd32Firmware.Mm.SpiRetry

/-!
# When commands are sent again and passed over

The sender notes when a command was put into its table, and later when it was sent again; the
receiver notes when it executed a command in turn. Both add a time span to the note and compare the
sum with the clock, as numbers of 32 bits that wrap around.

Here the notes are the times themselves, and what the program has are their readings
(`reading_timedStep`); a slot also bears when its command was last handed out, and the
receiver when it last executed or passed over a command. The notes are other times than these: a
command waits in the table before it is handed out, and what the receiver executes out of its table
is not noted. `spiTimes_iff` says which runs are nevertheless as they should be.
-/

namespace Gd32.Mm

open Table

/-! ### The code -/

/-- What `__wait_list_get_need_send` returns. -/
inductive NeedSend where
  /-- `0`, with the command. -/
  | handedOut (f : Frame)
  | mallocFail
  | notFound

/-- `__wait_list_get_need_send` with its return value; `mem` says whether there is memory for the
copy. -/
def needSendResult (mem : Bool) (now : ℕ) (l : List (Option TxNode)) :
    NeedSend × List (Option TxNode) :=
  match waitListGetNeedSend now l with
  | some (some n, l) => (if mem then .handedOut n.frame else .mallocFail, l)
  | _ => (.notFound, l)

/-- The tables of a device. -/
structure Tables where
  txList : List (Option TxNode)
  receiver : Receiver

/-- What can happen, each with the clock reading that the code gets. -/
inductive Timed where
  /-- `__wait_list_insert`. -/
  | insert (mem : Bool) (f : Frame)
  /-- `__wait_list_delete`. -/
  | ack (a : Ack)
  /-- `__wait_list_get_need_send`. -/
  | getNeedSend (mem : Bool)
  | frame (f : Frame) (mem : ℕ → Bool)
  /-- `ty_lp_proto_timeout_check`. -/
  | timeout (mem : ℕ → Bool)

/-- What the code makes of it at a clock reading. -/
def codeStep (getAuthinfo now : ℕ) : Timed → Tables → Tables
  | .insert mem f, s => { s with txList := (waitListInsert mem f now s.txList).getD s.txList }
  | .ack a, s => { s with txList := ((waitListDelete a s.txList).map Prod.snd).getD s.txList }
  | .getNeedSend mem, s => { s with txList := (needSendResult mem now s.txList).2 }
  | .frame f mem, s => { s with receiver := csJsonParse getAuthinfo now mem f s.receiver }
  | .timeout mem, s => { s with receiver := timeoutCheck now mem s.receiver }

/-! ### The code with times -/

/-- A slot in use. -/
structure TimedNode where
  /-- The slot, with a time in `ticks`. -/
  node : TxNode
  /-- When the command was last handed out. -/
  out : Option ℕ

/-- The slot with the reading of its time, as the program has it. -/
def TimedNode.reading (n : TimedNode) : TxNode := { n.node with ticks := u32 n.node.ticks }

/-- The receiver with the reading of its time. -/
def recvReading (r : Receiver) : Receiver := { r with lastProcTime := u32 r.lastProcTime }

/-- A device with times. -/
structure TimedTables where
  now : ℕ
  /-- `g_spi_tx_list`, with times. -/
  txList : List (Option TimedNode)
  /-- What it has received, with a time in `g_last_proc_time`. -/
  receiver : Receiver
  /-- When a command was last executed or passed over. -/
  done : Option ℕ

/-- What the program has. -/
def TimedTables.reading (s : TimedTables) : Tables :=
  ⟨s.txList.map (Option.map TimedNode.reading), recvReading s.receiver⟩

/-- What is done to a slot that is found; without memory the command is not handed out. -/
def TimedNode.handOut (mem : Bool) (now : ℕ) (n : TimedNode) : TimedNode :=
  ⟨touch now n.node, if mem then some now else n.out⟩

/-- The slot that `__wait_list_get_need_send` finds, and the table. -/
def timedNeedSend (mem : Bool) (now : ℕ) (l : List (Option TimedNode)) :
    Option (Option TimedNode × List (Option TimedNode)) :=
  modifyFirst (fun o => needSend (u32 now) (o.map TimedNode.reading))
    (Option.map (TimedNode.handOut mem now)) l

/-- What is done at a time. -/
def timedTablesStep (getAuthinfo now : ℕ) : Timed → TimedTables → TimedTables
  | .insert mem f, s =>
    if mem then { s with txList := update (·.isNone) (fun _ => some ⟨⟨.used, f, now⟩, none⟩) s.txList }
    else s
  | .ack a, s =>
    { s with txList := update (fun o => a.matches (o.map TimedNode.reading)) (fun _ => none) s.txList }
  | .getNeedSend mem, s =>
    { s with txList := ((timedNeedSend mem now s.txList).map Prod.snd).getD s.txList }
  | .frame f mem, s =>
    let r := csJsonParse getAuthinfo now mem f s.receiver
    { s with receiver := r, done := if r.executed = s.receiver.executed then s.done else some now }
  | .timeout mem, s =>
    if timesOut (u32 now) (recvReading s.receiver) then
      { s with
        receiver := handleCmdInBuffer (tyMaxRxNode + 1) mem
          { s.receiver with maxProcFn := s.receiver.maxProcFn + 1 }
        done := some now }
    else s

/-- One step: the next time is less than `2 ^ 31` milliseconds later. -/
def timedStep (getAuthinfo : ℕ) (i : ℕ × Timed) (s : TimedTables) : Option TimedTables :=
  if s.now ≤ i.1 ∧ i.1 < s.now + 2 ^ 31 then
    some { timedTablesStep getAuthinfo i.1 i.2 s with now := i.1 }
  else none

/-- The start, at any reading of the clock. -/
def timedInit (now : ℕ) : TimedTables :=
  ⟨now, List.replicate tyMaxTxNode none,
    ⟨0, 0, now - u32 now, List.replicate tyMaxRxNode none, []⟩, none⟩

/-! ### What is to be so -/

/-- The slot found meets one condition, if its command is handed out; or all slots in use meet
another one, if none is found. -/
def Answered (found left : TimedNode → Prop) (mem : Bool) (l : List (Option TimedNode)) :
    Option (Option TimedNode × List (Option TimedNode)) → Prop
  | some (some n, _) => mem → found n
  | _ => ∀ n, some n ∈ l → left n

/-- **A step is in time**: a command is handed out again only when `TY_SPI_RETRY_TIME_OUT`
milliseconds have passed since it was handed out last, `MM_ERR_NOT_FOUND` is returned only if every
command has been handed out and none that long ago, and a number is passed over only when 3000
milliseconds have passed since a command was executed or a number passed over. -/
def InTime (s : TimedTables) : ℕ × Timed → Prop
  | (t, .getNeedSend mem) =>
    Answered (fun n => ∀ b ∈ n.out, b + tySpiRetryTimeOut ≤ t)
      (fun n => ∃ b ∈ n.out, t < b + tySpiRetryTimeOut) mem s.txList (timedNeedSend mem t s.txList)
  | (t, .timeout _) => timesOut (u32 t) (recvReading s.receiver) → ∀ b ∈ s.done, b + 3000 ≤ t
  | _ => True

/-- A sum with a time has wrapped around, and the clock has not. -/
def WrapsAhead (now sum : ℕ) : Prop := now / 2 ^ 32 < sum / 2 ^ 32

/-- The clock has wrapped around since a time. -/
def WrapsBehind (now sum : ℕ) : Prop := sum / 2 ^ 32 < now / 2 ^ 32

/-- A command that would be handed out too early: it was put into the table some time before it was
handed out, or the sum wraps around. -/
def TimedNode.Hasty (now : ℕ) (n : TimedNode) : Prop :=
  (n.node.ticks + tySpiRetryTimeOut ≤ now ∨ WrapsAhead now (n.node.ticks + tySpiRetryTimeOut)) ∧
    ∃ b ∈ n.out, now < b + tySpiRetryTimeOut

/-- A command that would be overlooked: there was no memory when it was to be handed out, or the
clock has wrapped around. -/
def TimedNode.Stale (now : ℕ) (n : TimedNode) : Prop :=
  (now < n.node.ticks + tySpiRetryTimeOut ∨ WrapsBehind now (n.node.ticks + tySpiRetryTimeOut)) ∧
    ∀ b ∈ n.out, b + tySpiRetryTimeOut ≤ now

/-- A number that would be passed over too early: a command was executed out of the table or a number
passed over after the last note, or the sum wraps around. -/
def TimedTables.Hasty (now : ℕ) (s : TimedTables) : Prop :=
  (s.receiver.lastProcTime + 3000 < now ∨ WrapsAhead now (s.receiver.lastProcTime + 3000)) ∧
    ∃ b ∈ s.done, now < b + 3000

/-- A step in which what is found is not hasty, and nothing is stale if nothing is found. -/
def Steady (s : TimedTables) : ℕ × Timed → Prop
  | (t, .getNeedSend mem) =>
    Answered (¬·.Hasty t) (¬·.Stale t) mem s.txList (timedNeedSend mem t s.txList)
  | (t, .timeout _) => timesOut (u32 t) (recvReading s.receiver) → ¬s.Hasty t
  | _ => True

section Decide

variable {now : ℕ} {l : List (Option TimedNode)}

instance {P : TimedNode → Prop} [DecidablePred P] : Decidable (∀ n, some n ∈ l → P n) :=
  decidable_of_iff (∀ o ∈ l, ∀ n ∈ o, P n)
    ⟨fun h n hn => h (some n) hn n rfl, fun h _ ho n hn => h n (Option.mem_def.mp hn ▸ ho)⟩

instance {P Q : TimedNode → Prop} [DecidablePred P] [DecidablePred Q] (mem : Bool) :
    (r : Option (Option TimedNode × List (Option TimedNode))) → Decidable (Answered P Q mem l r)
  | some (some n, _) => inferInstanceAs (Decidable (mem = true → P n))
  | some (none, _) | none => inferInstanceAs (Decidable (∀ n, some n ∈ l → Q n))

instance (n : TimedNode) : Decidable (n.Hasty now) :=
  inferInstanceAs (Decidable ((_ ∨ _ < _) ∧ ∃ b ∈ n.out, _ < _))

instance (n : TimedNode) : Decidable (n.Stale now) :=
  inferInstanceAs (Decidable ((_ ∨ _ < _) ∧ ∀ b ∈ n.out, _ ≤ _))

instance (s : TimedTables) : Decidable (s.Hasty now) :=
  inferInstanceAs (Decidable ((_ ∨ _ < _) ∧ ∃ b ∈ s.done, _ < _))

instance (s : TimedTables) : (i : ℕ × Timed) → Decidable (InTime s i)
  | (_, .getNeedSend _) => inferInstanceAs (Decidable (Answered _ _ _ _ _))
  | (_, .timeout _) => inferInstanceAs (Decidable (_ = true → ∀ b ∈ s.done, _ ≤ _))
  | (_, .insert _ _) | (_, .ack _) | (_, .frame _ _) => .isTrue trivial

instance (s : TimedTables) : (i : ℕ × Timed) → Decidable (Steady s i)
  | (_, .getNeedSend _) => inferInstanceAs (Decidable (Answered _ _ _ _ _))
  | (t, .timeout _) => inferInstanceAs (Decidable (_ = true → ¬s.Hasty t))
  | (_, .insert _ _) | (_, .ack _) | (_, .frame _ _) => .isTrue trivial

end Decide

/-! ### What the program has -/

section Reading

variable {getAuthinfo now : ℕ} {s s' : TimedTables}

theorem reading_handOut (mem : Bool) (now : ℕ) (n : TimedNode) :
    (n.handOut mem now).reading = touch (u32 now) n.reading := by
  obtain ⟨⟨stat, f, ticks⟩, out⟩ := n
  cases stat <;> rfl

theorem map_snd_getD {α β : Type*} (g : α → β) (r : Option (α × List α)) (l : List α) :
    ((r.map fun r => (g r.1, r.2.map g)).map Prod.snd).getD (l.map g) =
      ((r.map Prod.snd).getD l).map g := by
  cases r <;> rfl

theorem waitListGetNeedSend_reading (mem : Bool) (now : ℕ) (l : List (Option TimedNode)) :
    waitListGetNeedSend (u32 now) (l.map (Option.map TimedNode.reading)) =
      (timedNeedSend mem now l).map fun r =>
        (r.1.map TimedNode.reading, r.2.map (Option.map TimedNode.reading)) := by
  refine modifyFirst_map _ (fun _ => rfl) (fun o => ?_) l
  cases o with
  | none => rfl
  | some n => exact congrArg some (reading_handOut mem now n).symm

/-- What is found is a slot in use. -/
theorem timedNeedSend_cases (mem : Bool) (now : ℕ) (l : List (Option TimedNode)) :
    timedNeedSend mem now l = none ∨ ∃ n l', timedNeedSend mem now l = some (some n, l') := by
  rcases h : timedNeedSend mem now l with _ | ⟨_ | n, l'⟩
  · exact .inl rfl
  · exact absurd (modifyFirst_eq_some h).1 Bool.false_ne_true
  · exact .inr ⟨n, l', rfl⟩

theorem recvReading_handleCmdInBuffer (n : ℕ) (mem : ℕ → Bool) (r : Receiver) :
    recvReading (handleCmdInBuffer n mem r) = handleCmdInBuffer n mem (recvReading r) := by
  induction n generalizing mem r with
  | zero => rfl
  | succ n ih =>
    rw [handleCmdInBuffer, handleCmdInBuffer]
    simp only [recvReading]
    split
    · rfl
    · exact ih _ _

theorem recvReading_csJsonParse (now : ℕ) (mem : ℕ → Bool) (f : Frame) (r : Receiver) :
    recvReading (csJsonParse getAuthinfo now mem f r) =
      csJsonParse getAuthinfo (u32 now) mem f (recvReading r) := by
  rw [csJsonParse, csJsonParse]
  by_cases hbypass : bypasses getAuthinfo f.cmd = true
  · rw [if_pos hbypass, if_pos hbypass]
    rfl
  rw [if_neg hbypass, if_neg hbypass]
  by_cases hnext : r.maxProcFn + 1 = f.frameNum
  · rw [if_pos hnext, if_pos (show (recvReading r).maxProcFn + 1 = f.frameNum from hnext)]
    by_cases hmore : r.maxProcFn + 1 + 1 ≤ r.maxFnInBuffer
    · exact (congrArg recvReading (if_pos hmore)).trans
        ((recvReading_handleCmdInBuffer ..).trans (if_pos hmore).symm)
    · exact (congrArg recvReading (if_neg hmore)).trans (if_neg hmore).symm
  rw [if_neg hnext, if_neg (show ¬(recvReading r).maxProcFn + 1 = f.frameNum from hnext)]
  by_cases hold : f.frameNum ≤ r.maxProcFn
  · rw [if_pos hold, if_pos (show f.frameNum ≤ (recvReading r).maxProcFn from hold)]
  rw [if_neg hold, if_neg (show ¬f.frameNum ≤ (recvReading r).maxProcFn from hold)]
  rw [show (recvReading r).rxList = r.rxList from rfl]
  rcases hinsert : rxListInsert (mem 0) f r.rxList with _ | l
  · rfl
  · simp only [recvReading, apply_ite u32]
    rfl

theorem waitListInsert_reading (mem : Bool) (f : Frame) (now : ℕ) (l : List (Option TimedNode)) :
    (waitListInsert mem f (u32 now) (l.map (Option.map TimedNode.reading))).getD
        (l.map (Option.map TimedNode.reading)) =
      (if mem then update (·.isNone) (fun _ => some ⟨⟨.used, f, now⟩, none⟩) l else l).map
        (Option.map TimedNode.reading) := by
  cases mem with
  | false => rfl
  | true =>
    rw [waitListInsert, if_pos rfl, if_pos rfl, modifyFirst_map (Option.map TimedNode.reading)
      (p := (·.isNone)) (f := fun _ => some ⟨⟨.used, f, now⟩, none⟩) (fun o => by cases o <;> rfl)
      (fun _ => rfl) l, map_snd_getD]
    rfl

/-- **A step in times is, for their readings, a step of the program.** -/
theorem reading_timedStep {i : ℕ × Timed} (h : timedStep getAuthinfo i s = some s') :
    s'.reading = codeStep getAuthinfo (u32 i.1) i.2 s.reading := by
  rw [timedStep] at h
  split_ifs at h
  cases h
  obtain ⟨t, e⟩ := i
  cases e with
  | insert mem f =>
    simp only [codeStep, TimedTables.reading, waitListInsert_reading, timedTablesStep]
    split <;> rfl
  | ack a =>
    have hdelete : waitListDelete a (s.txList.map (Option.map TimedNode.reading)) = _ :=
      modifyFirst_map (f := fun _ => none) (Option.map TimedNode.reading) (fun _ => rfl)
        (fun _ => rfl) s.txList
    simp only [codeStep, TimedTables.reading, hdelete, map_snd_getD, timedTablesStep]
    rfl
  | getNeedSend mem =>
    simp only [codeStep, TimedTables.reading, needSendResult, waitListGetNeedSend_reading mem]
    rcases timedNeedSend_cases mem t s.txList with hnone | ⟨n, l, hsome⟩
    · simp only [timedTablesStep, hnone]
      rfl
    · simp only [timedTablesStep, hsome]
      rfl
  | frame f mem =>
    simp only [timedTablesStep, TimedTables.reading, codeStep, recvReading_csJsonParse]
  | timeout mem =>
    show _ = (⟨_, timeoutCheck (u32 t) mem (recvReading s.receiver)⟩ : Tables)
    rw [timedTablesStep, timeoutCheck]
    by_cases hout : timesOut (u32 t) (recvReading s.receiver) = true
    · rw [if_pos hout, if_pos hout, TimedTables.reading, recvReading_handleCmdInBuffer]
      rfl
    · rw [if_neg hout, if_neg hout]
      rfl

/-- What `__wait_list_get_need_send` returns. -/
theorem needSendResult_reading (mem : Bool) (now : ℕ) (s : TimedTables) :
    (needSendResult mem (u32 now) s.reading.txList).1 =
      match timedNeedSend mem now s.txList with
      | some (some n, _) => if mem then .handedOut n.node.frame else .mallocFail
      | _ => .notFound := by
  simp only [needSendResult, TimedTables.reading, waitListGetNeedSend_reading mem]
  rcases timedNeedSend_cases mem now s.txList with hnone | ⟨n, l, hsome⟩
  · rw [hnone]
    rfl
  · rw [hsome]
    rfl

/-- **A run in times is, for their readings, a run of the program**, and so is what
`__wait_list_get_need_send` returns after it. -/
theorem reading_timedRun {is : List (ℕ × Timed)}
    (h : Machine.run (timedStep getAuthinfo) is s = some s') :
    s'.reading = is.foldl (fun u i => codeStep getAuthinfo (u32 i.1) i.2 u) s.reading ∧
      ∀ mem now, (needSendResult mem (u32 now) s'.reading.txList).1 =
        match timedNeedSend mem now s'.txList with
        | some (some n, _) => if mem then .handedOut n.node.frame else .mallocFail
        | _ => .notFound := by
  refine ⟨?_, fun mem now => needSendResult_reading mem now s'⟩
  induction is generalizing s with
  | nil =>
    cases h
    rfl
  | cons i is ih =>
    obtain ⟨u, hu, hrun⟩ := Option.bind_eq_some_iff.mp h
    rw [List.foldl_cons, ih hrun, reading_timedStep hu]

theorem reading_timedRun_insert : ∃ s', Machine.run (timedStep 32)
    [(7, .insert true ⟨4, 1, []⟩)] (timedInit 0) = some s' ∧
      s'.reading = [(7, Timed.insert true ⟨4, 1, []⟩)].foldl
        (fun u i => codeStep 32 (u32 i.1) i.2 u) (timedInit 0).reading := by
  obtain ⟨s', hrun⟩ : ∃ s', Machine.run (timedStep 32) [(7, .insert true ⟨4, 1, []⟩)]
    (timedInit 0) = some s' := ⟨_, rfl⟩
  exact ⟨s', hrun, (reading_timedRun hrun).1⟩

end Reading

/-! ### Sums that wrap around -/

section Sums

variable {a d now : ℕ}

theorem u32_sum (a d : ℕ) : u32 (u32 a + d) = u32 (a + d) := Nat.mod_add_mod a (2 ^ 32) d

/-- What the comparison means when it holds. -/
theorem le_or_wrapsAhead (h : u32 (u32 a + d) ≤ u32 now) : a + d ≤ now ∨ WrapsAhead now (a + d) := by
  simp only [WrapsAhead, u32] at *
  omega

theorem lt_or_wrapsAhead (h : u32 (u32 a + d) < u32 now) : a + d < now ∨ WrapsAhead now (a + d) := by
  simp only [WrapsAhead, u32] at *
  omega

/-- What the comparison means when it does not hold. -/
theorem lt_or_wrapsBehind (h : ¬u32 (u32 a + d) ≤ u32 now) :
    now < a + d ∨ WrapsBehind now (a + d) := by
  simp only [WrapsBehind, u32] at *
  omega

end Sums

/-! ### Every run -/

section Runs

variable {getAuthinfo : ℕ} {s s' : TimedTables} {i : ℕ × Timed}

/-- What every step keeps: a command that has not been sent has not been handed out. -/
def Unsent (s : TimedTables) : Prop :=
  ∀ n, some n ∈ s.txList → n.node.stat = .used → n.out = none

theorem unsent_timedStep (h : Unsent s) (hi : timedStep getAuthinfo i s = some s') : Unsent s' := by
  rw [timedStep] at hi
  split_ifs at hi
  cases hi
  obtain ⟨t, e⟩ := i
  cases e with
  | insert mem f =>
    rw [timedTablesStep]
    split_ifs
    · intro n hn
      rcases mem_update hn with hn | ⟨-, -, -, hn⟩
      · exact h n hn
      · rw [Option.some.inj hn]
        exact fun _ => rfl
    · exact h
  | ack a =>
    intro n hn
    rcases mem_update hn with hn | ⟨-, -, -, hn⟩
    · exact h n hn
    · cases hn
  | getNeedSend mem =>
    rw [timedTablesStep]
    rcases timedNeedSend_cases mem t s.txList with hnone | ⟨m, l, hsome⟩
    · rw [hnone]
      exact h
    · rw [hsome]
      intro n hn
      rcases mem_or_eq_of_modifyFirst hsome hn with hn | hn
      · exact h n hn
      · -- a slot that is handed out is not `TY_USED` any more
        intro hused
        rw [Option.some.inj hn, TimedNode.handOut, touch] at hused
        split at hused
        · cases hused
        · next hsend =>
          rw [hsend] at hused
          cases hused
  | frame f mem => exact h
  | timeout mem =>
    rw [timedTablesStep]
    split_ifs
    · exact h
    · exact h

/-- **A step is in time exactly when it is steady.** -/
theorem inTime_iff (h : Unsent s) (i : ℕ × Timed) : InTime s i ↔ Steady s i := by
  obtain ⟨t, e⟩ := i
  cases e with
  | insert mem f => exact Iff.rfl
  | ack a => exact Iff.rfl
  | frame f mem => exact Iff.rfl
  | getNeedSend mem =>
    rcases timedNeedSend_cases mem t s.txList with hnone | ⟨n, l, hsome⟩
    · simp only [InTime, Steady, hnone, Answered]
      refine forall₂_congr fun n hn => ?_
      have hdue := modifyFirst_eq_none.mp hnone (some n) hn
      simp only [Option.map_some, needSend, decide_eq_false_iff_not, not_or] at hdue
      rw [TimedNode.Stale, and_iff_right (lt_or_wrapsBehind hdue.2)]
      simp only [not_forall, Nat.not_le, exists_prop]
    · simp only [InTime, Steady, hsome, Answered]
      refine imp_congr_right fun _ => ?_
      have hdue := (modifyFirst_eq_some hsome).1
      simp only [Option.map_some, needSend, decide_eq_true_eq] at hdue
      rcases hdue with hused | hdue
      · -- the command is handed out for the first time
        have hout : n.out = none := h n (mem_of_modifyFirst hsome) hused
        simp [TimedNode.Hasty, hout]
      · rw [TimedNode.Hasty, and_iff_right (le_or_wrapsAhead hdue)]
        simp only [not_exists, not_and, Nat.not_lt]
  | timeout mem =>
    refine imp_congr_right fun hout => ?_
    simp only [timesOut, decide_eq_true_eq] at hout
    rw [TimedTables.Hasty, and_iff_right (lt_or_wrapsAhead hout.2)]
    simp only [not_exists, not_and, Nat.not_lt]

end Runs

end Gd32.Mm
