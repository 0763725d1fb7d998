import Gd32Firmware.App.Passthrough
import Mathlib.Data.List.Count

/-!
# Sending through the AT sockets

`cip_recv_task` of `atcmd_tcpip.c` does the sending for the AT commands: a request with the address
and the length of the data comes through a local socket. In the normal mode the data stands in a
buffer that `at_tcp_send` or `at_udp_send` has allocated, and the task frees it; in the passthrough
mode it stands in one of the two buffers of `at_hw_passth_send`. The task goes by the mode of the
moment, not by who has sent the request.

The table of the connections is there with its four functions. `sends_calm` says when the
answers and the frees are right, `not_sends_partial` that they are not always.
-/

namespace Gd32.App

open List

variable {x : CipClient} {rest : List SendReq} {q : SendReq}

/-! ### The table of connections -/

/-- `CIP_ROLE_CLIENT` and `CIP_ROLE_SERVER`. -/
inductive CipRole where
  | client
  | server
  deriving DecidableEq

/-- `client_info_t`. -/
structure CipClient where
  fd : ℤ
  type : CipType
  role : CipRole
  remoteIp : ℕ
  remotePort : ℕ
  localPort : ℕ

/-- An entry that is free, which is filled with zeros but for `fd`. -/
def freeClient : CipClient := ⟨-1, .tcp, .client, 0, 0, 0⟩

/-- `cip_info.cli`, which has `MAX_CLIENT_NUM` entries, and `cip_info.cli_num`. -/
structure CipInfo where
  cli : List CipClient
  cliNum : ℕ

def cipInfoInit (maxClientNum : ℕ) : CipInfo := ⟨List.replicate maxClientNum freeClient, 0⟩

/-- `cip_info_cli_alloc`. -/
def CipInfo.cliAlloc (c : CipInfo) : Option ℕ :=
  if c.cli.length ≤ c.cliNum then none else c.cli.findIdx? (·.fd < 0)

/-- `cip_info_cli_is_free`. -/
def CipInfo.cliIsFree (c : CipInfo) (conId : ℕ) : Bool :=
  (c.cli[conId]?.map fun x => decide (x.fd < 0)).getD false

/-- `cip_info_cli_store`; no `conId` stands for a negative one. -/
def CipInfo.cliStore (c : CipInfo) (conId : Option ℕ) (x : CipClient) : Option CipInfo :=
  let idx := match conId with
    | none => c.cliAlloc
    | some i => if c.cliIsFree i then some i else none
  match idx with
  | none => none
  | some i => if x.fd < 0 then none else some ⟨c.cli.set i x, c.cliNum + 1⟩

/-- `cip_info_cli_free`. -/
def CipInfo.cliFree (c : CipInfo) (index : ℕ) : CipInfo :=
  match c.cli[index]? with
  | none => c
  | some x => if x.fd ≠ -1 then ⟨c.cli.set index freeClient, c.cliNum - 1⟩ else c

/-- `cip_info_cli_find`. -/
def CipInfo.cliFind (c : CipInfo) (fd : ℤ) : Option ℕ := c.cli.findIdx? (·.fd = fd)

/-! ### Requests -/

/-- `cip_info.trans_mode`. -/
inductive TransMode where
  | normal
  | passthrough
  deriving DecidableEq

/-- Where the data of a request stands. -/
inductive SendAddr where
  /-- A buffer that was allocated for it, by its number. -/
  | heap (id : ℕ)
  /-- A place in a buffer of the passthrough. -/
  | passth (bufIdx offset : ℕ)
  deriving DecidableEq

/-- `struct at_local_tcp_send` and `struct at_local_udp_send`. -/
structure SendReq where
  /-- `event_id`. -/
  event : CipType
  sockFd : ℤ
  addr : SendAddr
  len : ℕ

def eAgain : ℕ := 11

def eNoMem : ℕ := 12

/-- What `send` or `sendto` returns, and `errno`. -/
structure SendResult where
  cnt : ℤ
  errno : ℕ

/-- The failure is one that may pass. -/
def SendResult.passing (r : SendResult) : Bool := r.errno = eAgain || r.errno = eNoMem

/-- The number of bytes that the socket has accepted. -/
def SendResult.accepted (r : SendResult) : ℤ := max r.cnt 0

def maxRetries : ℕ := 60

/-- The result of the last attempt, with at most `n` more after the first. -/
def sendRetry : ℕ → (ℕ → SendResult) → SendResult
  | 0, r => r 0
  | n + 1, r => if (r 0).cnt ≤ 0 ∧ (r 0).passing then sendRetry n fun i => r (i + 1) else r 0

/-- What is answered to a request. -/
inductive SendAnswer where
  | ok
  | fail
  | none

/-- A request that has been handled. -/
structure HandledReq where
  req : SendReq
  accepted : ℤ
  answer : SendAnswer

/-- The sockets of the AT commands. -/
structure CipSend where
  info : CipInfo
  openFds : List ℤ
  transMode : TransMode
  /-- The requests on their way, oldest first. -/
  queue : List SendReq
  /-- The number of buffers allocated so far. -/
  allocs : ℕ
  freed : List SendAddr
  handled : List HandledReq

/-- No connection. -/
def cipSendInit (maxClientNum : ℕ) : CipSend :=
  ⟨cipInfoInit maxClientNum, [], .normal, [], 0, [], []⟩

/-! ### Sending -/

/-- How far a request gets in `at_tcp_send` and `at_udp_send`. -/
inductive PostResult where
  | refused
  /-- The data does not arrive, or the local socket fails: the buffer is freed again. -/
  | failed
  | posted

/-- `at_tcp_send` and `at_udp_send`. -/
def CipSend.post (event : CipType) (fd : ℤ) (txLen : ℕ) (r : PostResult) (s : CipSend) : CipSend :=
  match r with
  | .refused => s
  | .failed => { s with allocs := s.allocs + 1, freed := s.freed ++ [.heap s.allocs] }
  | .posted =>
    { s with allocs := s.allocs + 1, queue := s.queue ++ [⟨event, fd, .heap s.allocs, txLen⟩] }

/-- A part that `at_passth_send_data` hands on. -/
def CipSend.passthPost (event : CipType) (fd : ℤ) (bufIdx offset sentCnt : ℕ) (s : CipSend) :
    CipSend :=
  { s with queue := s.queue ++ [⟨event, fd, .passth bufIdx offset, sentCnt⟩] }

/-- The socket is closed, and its entry `idx` is free again. -/
def CipSend.closeClient (fd : ℤ) (idx : ℕ) (s : CipSend) : CipSend :=
  { s with openFds := s.openFds.filter (· ≠ fd), info := s.info.cliFree idx }

/-- A failure that does not pass closes the connection: of a TCP socket, if it is a client's. -/
def CipSend.closeFailed (q : SendReq) (s : CipSend) : CipSend :=
  match s.info.cliFind q.sockFd with
  | none => s
  | some idx =>
    if q.event = .udp ∨ (s.info.cli[idx]?.map CipClient.role) = some .client then
      s.closeClient q.sockFd idx
    else s

/-- The answer that the mode lets through. -/
def answerIn (mode : TransMode) (a : SendAnswer) : SendAnswer :=
  if mode = .passthrough then .none else a

/-- `cip_recv_task` with the oldest request; `r` are the results of its attempts to send. -/
def CipSend.recvTask (r : ℕ → SendResult) (s : CipSend) : Option CipSend :=
  match s.queue with
  | [] => none
  | q :: rest =>
    let res := sendRetry maxRetries r
    if res.cnt ≤ 0 then
      -- the address is zero from here on, so the free at the end is left out
      let s := { s with freed := s.freed ++ [q.addr], queue := rest }
      let s := if res.passing then s else s.closeFailed q
      some
        { s with
          handled := s.handled ++ [⟨q, res.accepted, answerIn s.transMode .fail⟩] }
    else
      some
        { s with
          queue := rest
          handled := s.handled ++ [⟨q, res.accepted, answerIn s.transMode .ok⟩]
          freed := if s.transMode = .passthrough then s.freed else s.freed ++ [q.addr] }

/-! ### Steps -/

/-- What can happen. -/
inductive CipStep where
  /-- `at_tcp_send` or `at_udp_send`. -/
  | post (event : CipType) (fd : ℤ) (txLen : ℕ) (r : PostResult)
  /-- `at_passth_send_data` hands on a part. -/
  | passthPost (event : CipType) (fd : ℤ) (bufIdx offset sentCnt : ℕ)
  /-- `AT+CIPMODE`. -/
  | setMode (mode : TransMode)
  /-- A socket is opened and put into the table; if it does not fit in, it is closed again. -/
  | connect (conId : Option ℕ) (x : CipClient)
  /-- The connection of an entry is closed: stopped, gone, or broken. -/
  | disconnect (idx : ℕ)
  /-- `cip_recv_task` handles a request. -/
  | handle (r : ℕ → SendResult)

/-- One step. A socket that is opened has a number that no open one has. -/
def cipStep : CipStep → CipSend → Option CipSend
  | .post event fd txLen r, s => some (s.post event fd txLen r)
  | .passthPost event fd bufIdx offset sentCnt, s =>
    some (s.passthPost event fd bufIdx offset sentCnt)
  | .setMode mode, s => some { s with transMode := mode }
  | .connect conId x, s =>
    if x.fd < 0 ∨ x.fd ∈ s.openFds then none
    else
      match s.info.cliStore conId x with
      | none => some s
      | some info => some { s with info := info, openFds := x.fd :: s.openFds }
  | .disconnect idx, s =>
    match s.info.cli[idx]? with
    | none => none
    | some x => if x.fd < 0 then none else some (s.closeClient x.fd idx)
  | .handle r, s => s.recvTask r

/-! ### What is to be so -/

/-- An entry that is in use. -/
def CipClient.used (x : CipClient) : Bool := 0 ≤ x.fd

/-- **Answers, frees and the table are right.** -/
structure SendsRight (s : CipSend) : Prop where
  /-- `SEND OK` only when everything was accepted, else `SEND FAIL`. -/
  answers : ∀ h ∈ s.handled,
    (h.answer = .ok → h.accepted = h.req.len) ∧ (h.accepted ≠ h.req.len → h.answer = .fail)
  /-- A buffer is freed once, when its request is no longer on its way. -/
  freed_once : ∀ id < s.allocs,
    s.freed.count (.heap id) + (s.queue.map SendReq.addr).count (.heap id) = 1
  /-- The buffers of the passthrough are not freed. -/
  passth_kept : ∀ bufIdx offset, .passth bufIdx offset ∉ s.freed
  cliNum_eq : s.info.cliNum = s.info.cli.countP CipClient.used
  fds_open : ∀ x ∈ s.info.cli, 0 ≤ x.fd → x.fd ∈ s.openFds

/-- The request goes well with the mode and the results of sending. -/
def SendReq.Calm (q : SendReq) (mode : TransMode) (res : SendResult) : Prop :=
  match q.addr, mode with
  | .heap _, .normal => res.cnt ≤ 0 ∨ res.cnt = q.len
  | .passth _ _, .passthrough => 0 < res.cnt ∧ res.cnt = q.len
  | _, _ => False

/-- A request is handled in the mode it was made in; in the normal mode all of it is sent or nothing,
in the passthrough mode all of it. -/
def CipStep.Calm (s : CipSend) : CipStep → Prop
  | .handle r => ∀ q ∈ s.queue.head?, q.Calm s.transMode (sendRetry maxRetries r)
  | _ => True

/-! ### The table keeps its count -/

/-- What is so of the table and the open sockets. -/
structure CipInfo.Inv (c : CipInfo) (openFds : List ℤ) : Prop where
  cliNum_eq : c.cliNum = c.cli.countP CipClient.used
  fds_open : ∀ x ∈ c.cli, 0 ≤ x.fd → x.fd ∈ openFds
  distinct : ∀ (i j : ℕ) (x y : CipClient), c.cli[i]? = some x → c.cli[j]? = some y →
    0 ≤ x.fd → x.fd = y.fd → i = j
  free : ∀ x ∈ c.cli, x.fd < 0 → x.fd = -1

theorem CipInfo.inv_init (n : ℕ) : (cipInfoInit n).Inv [] := by
  have hfree (x : CipClient) (hx : x ∈ (cipInfoInit n).cli) : x = freeClient :=
    eq_of_mem_replicate hx
  constructor
  · refine Eq.symm (countP_eq_zero.mpr fun x hx => ?_)
    rw [hfree x hx]
    decide
  · intro x hx hfd
    rw [hfree x hx] at hfd
    exact absurd hfd (by decide)
  · intro i j x y hx _ hfd _
    rw [hfree x (mem_of_getElem? hx)] at hfd
    exact absurd hfd (by decide)
  · intro x hx _
    rw [hfree x hx]
    rfl

namespace CipInfo.Inv

variable {c : CipInfo} {openFds : List ℤ}

/-- A socket is put into an entry that is free. -/
theorem set (h : c.Inv openFds) {i : ℕ} {y : CipClient} (hi : c.cli[i]? = some y)
    (hy : y.fd < 0) (hx : 0 ≤ x.fd) (hnew : x.fd ∉ openFds) :
    (⟨c.cli.set i x, c.cliNum + 1⟩ : CipInfo).Inv (x.fd :: openFds) := by
  obtain ⟨hlt, hget⟩ := List.getElem?_eq_some_iff.mp hi
  constructor
  · have hy' : CipClient.used c.cli[i] = false := by
      rw [hget]
      exact decide_eq_false (by omega)
    have hx' : x.used = true := decide_eq_true hx
    rw [countP_set hlt, hy', hx', h.cliNum_eq]
    rfl
  · intro z hz hfd
    rcases mem_or_eq_of_mem_set hz with hz | rfl
    · exact mem_cons_of_mem _ (h.fds_open z hz hfd)
    · exact mem_cons_self
  · intro j k u v hu hv hfd huv
    rw [List.getElem?_set] at hu hv
    -- the new socket is in no other entry
    split at hu <;> split at hv
    · omega
    · rw [Option.some.injEq] at hu
      subst hu
      exact absurd (huv ▸ h.fds_open v (mem_of_getElem? hv) (huv ▸ hfd)) hnew
    · rw [Option.some.injEq] at hv
      subst hv
      exact absurd (huv ▸ h.fds_open u (mem_of_getElem? hu) hfd) hnew
    · exact h.distinct j k u v hu hv hfd huv
  · intro z hz hfd
    rcases mem_or_eq_of_mem_set hz with hz | rfl
    · exact h.free z hz hfd
    · omega

/-- `cip_info_cli_store` of a socket that is open now. -/
theorem cliStore (h : c.Inv openFds) {conId : Option ℕ} {c' : CipInfo}
    (hx : 0 ≤ x.fd) (hnew : x.fd ∉ openFds) (hc : c.cliStore conId x = some c') :
    c'.Inv (x.fd :: openFds) := by
  unfold CipInfo.cliStore at hc
  dsimp only at hc
  split at hc
  · cases hc
  · rename_i i hidx
    rw [if_neg (by omega)] at hc
    obtain rfl := Option.some.inj hc
    obtain ⟨y, hy, hfree⟩ : ∃ y, c.cli[i]? = some y ∧ y.fd < 0 := by
      split at hidx
      · rw [CipInfo.cliAlloc, Option.ite_none_left_eq_some, List.findIdx?_eq_some_iff_getElem]
          at hidx
        obtain ⟨-, hlt, hfree, -⟩ := hidx
        exact ⟨c.cli[i], List.getElem?_eq_getElem hlt, of_decide_eq_true hfree⟩
      · rename_i k
        rw [Option.ite_none_right_eq_some, Option.some.injEq] at hidx
        obtain ⟨hfree, rfl⟩ := hidx
        rw [CipInfo.cliIsFree] at hfree
        cases hget : c.cli[k]? with
        | none => simp [hget] at hfree
        | some y => exact ⟨y, rfl, by simpa [hget] using hfree⟩
    exact h.set hy hfree hx hnew

/-- `cip_info_cli_free` and `close` of the same socket. -/
theorem close (h : c.Inv openFds) {fd : ℤ} {idx : ℕ} (hx : c.cli[idx]? = some x)
    (hfd : x.fd = fd) : (c.cliFree idx).Inv (openFds.filter (· ≠ fd)) := by
  obtain ⟨hlt, hget⟩ := List.getElem?_eq_some_iff.mp hx
  rw [CipInfo.cliFree, hx]
  dsimp only
  split
  · rename_i hused
    have hpos : 0 ≤ x.fd := by
      by_contra hneg
      exact hused (h.free x (mem_of_getElem? hx) (by omega))
    have hother (z : CipClient) {j : ℕ} (hz : c.cli[j]? = some z) (hj : j ≠ idx)
        (hz0 : 0 ≤ z.fd) : z.fd ≠ fd := by
      intro heq
      exact hj (h.distinct j idx z x hz hx hz0 (heq.trans hfd.symm))
    have hset {z : CipClient} {j : ℕ} (hz : (c.cli.set idx freeClient)[j]? = some z) :
        (j ≠ idx ∧ c.cli[j]? = some z) ∨ z = freeClient := by
      rw [List.getElem?_set] at hz
      split at hz
      · rw [Option.some.injEq] at hz
        exact Or.inr hz.symm
      · exact Or.inl ⟨by omega, hz⟩
    constructor
    · have hx' : CipClient.used c.cli[idx] = true := by
        rw [hget]
        exact decide_eq_true hpos
      rw [countP_set hlt, hx', h.cliNum_eq]
      rfl
    · intro z hz hz0
      obtain ⟨j, hj⟩ := mem_iff_getElem?.mp hz
      rcases hset hj with ⟨hne, hz⟩ | rfl
      · rw [mem_filter]
        exact ⟨h.fds_open z (mem_of_getElem? hz) hz0, decide_eq_true (hother z hz hne hz0)⟩
      · exact absurd hz0 (by decide)
    · intro j k u v hu hv hu0 huv
      rcases hset hu with ⟨hj, hu⟩ | rfl
      · rcases hset hv with ⟨hk, hv⟩ | rfl
        · exact h.distinct j k u v hu hv hu0 huv
        · rw [huv] at hu0
          exact absurd hu0 (by decide)
      · exact absurd hu0 (by decide)
    · intro z hz hz0
      obtain ⟨j, hj⟩ := mem_iff_getElem?.mp hz
      rcases hset hj with ⟨-, hz⟩ | rfl
      · exact h.free z (mem_of_getElem? hz) hz0
      · rfl
  · -- nothing was there, and -1 is no socket
    rename_i hnone
    refine { h with fds_open := ?_ }
    intro z hz hz0
    rw [mem_filter]
    exact ⟨h.fds_open z hz hz0, decide_eq_true (by omega)⟩

end CipInfo.Inv

/-! ### Every step keeps it -/

/-- What is so between the steps. -/
structure CipSend.Inv (s : CipSend) : Prop where
  answers : ∀ h ∈ s.handled,
    (h.answer = .ok → h.accepted = h.req.len) ∧ (h.accepted ≠ h.req.len → h.answer = .fail)
  /-- A buffer that has been allocated is on its way or has been freed. -/
  once : ∀ id, s.freed.count (.heap id) + (s.queue.map SendReq.addr).count (.heap id) =
    if id < s.allocs then 1 else 0
  passth_kept : ∀ bufIdx offset, .passth bufIdx offset ∉ s.freed
  info : s.info.Inv s.openFds

theorem CipSend.inv_init (n : ℕ) : (cipSendInit n).Inv := by
  constructor
  · intro h hh
    exact absurd hh not_mem_nil
  · intro id
    rfl
  · intro bufIdx offset h
    exact absurd h not_mem_nil
  · exact CipInfo.inv_init n

/-- A request after the last attempt failed for good or went well. -/
theorem sendAnswer_right {mode : TransMode} {res : SendResult}
    (hcalm : q.Calm mode res) {a : SendAnswer}
    (ha : a = answerIn mode (if res.cnt ≤ 0 then .fail else .ok)) :
    (a = .ok → res.accepted = q.len) ∧ (res.accepted ≠ q.len → a = .fail) := by
  subst ha
  unfold SendReq.Calm at hcalm
  split at hcalm
  · -- the normal mode
    rw [answerIn, if_neg (by decide), SendResult.accepted]
    rcases hcalm with hfail | hall
    · rw [if_pos hfail]
      exact ⟨nofun, fun _ => rfl⟩
    · split
      · exact ⟨nofun, fun _ => rfl⟩
      · rw [hall]
        refine ⟨fun _ => max_eq_left (Int.natCast_nonneg _), fun hne => absurd ?_ hne⟩
        exact max_eq_left (Int.natCast_nonneg _)
  · -- the passthrough mode
    rw [answerIn, if_pos rfl, SendResult.accepted, hcalm.2]
    exact ⟨nofun, fun hne => absurd (max_eq_left (Int.natCast_nonneg _)) hne⟩
  · exact hcalm.elim

theorem count_heap (id n : ℕ) : [SendAddr.heap n].count (.heap id) = if id = n then 1 else 0 := by
  rw [count_singleton]
  by_cases h : id = n
  · rw [if_pos h, h, if_pos (beq_self_eq_true _)]
  · rw [if_neg h, if_neg (by simpa using fun h' => h h'.symm)]

/-- One buffer more. -/
theorem lt_succ_count {a b id n : ℕ} (h : a + b = if id < n then 1 else 0) :
    a + b + (if id = n then 1 else 0) = if id < n + 1 then 1 else 0 := by
  split at h <;> split <;> split <;> omega

namespace CipSend.Inv

variable {s : CipSend}

theorem post (h : s.Inv) (event : CipType) (fd : ℤ) (txLen : ℕ) (r : PostResult) :
    (s.post event fd txLen r).Inv := by
  cases r with
  | refused => exact h
  | failed =>
    refine { h with once := fun id => ?_, passth_kept := fun bufIdx offset hmem => ?_ }
    · simp only [CipSend.post]
      rw [count_append, count_heap, Nat.add_right_comm]
      exact lt_succ_count (h.once id)
    · rcases mem_append.mp hmem with hmem | hmem
      · exact h.passth_kept bufIdx offset hmem
      · rw [mem_singleton] at hmem
        cases hmem
  | posted =>
    refine { h with once := fun id => ?_ }
    simp only [CipSend.post]
    rw [map_append, count_append, map_singleton, count_heap, ← Nat.add_assoc]
    exact lt_succ_count (h.once id)

theorem closeFailed (h : s.Inv) (q : SendReq) : (s.closeFailed q).Inv := by
  unfold CipSend.closeFailed
  split
  · exact h
  · rename_i idx hidx
    split
    · rw [CipInfo.cliFind, List.findIdx?_eq_some_iff_getElem] at hidx
      obtain ⟨hlt, hfd, -⟩ := hidx
      exact { h with info := h.info.close (List.getElem?_eq_getElem hlt) (of_decide_eq_true hfd) }
    · exact h

/-- The answer to a request is right. -/
theorem log (h : s.Inv) {x : HandledReq} (hok : x.answer = .ok → x.accepted = x.req.len)
    (hfail : x.accepted ≠ x.req.len → x.answer = .fail) :
    ({ s with handled := s.handled ++ [x] } : CipSend).Inv := by
  refine { h with answers := fun y hy => ?_ }
  rcases mem_append.mp hy with hy | hy
  · exact h.answers y hy
  · rw [mem_singleton] at hy
    exact hy ▸ ⟨hok, hfail⟩

/-- The buffer of the oldest request is freed. -/
theorem free (h : s.Inv) (hqueue : s.queue = q :: rest)
    {n : ℕ} (haddr : q.addr = .heap n) :
    ({ s with freed := s.freed ++ [q.addr], queue := rest } : CipSend).Inv := by
  refine { h with once := fun id => ?_, passth_kept := fun bufIdx offset hmem => ?_ }
  · have hid := h.once id
    rw [hqueue, map_cons, ← singleton_append, count_append, ← Nat.add_assoc] at hid
    rw [count_append]
    exact hid
  · rcases mem_append.mp hmem with hmem | hmem
    · exact h.passth_kept bufIdx offset hmem
    · rw [mem_singleton, haddr] at hmem
      cases hmem

/-- The oldest request is one of the passthrough, whose buffer is not freed. -/
theorem drop (h : s.Inv) (hqueue : s.queue = q :: rest)
    {b o : ℕ} (haddr : q.addr = .passth b o) : ({ s with queue := rest } : CipSend).Inv := by
  refine { h with once := fun id => ?_ }
  have hid := h.once id
  rw [hqueue, map_cons, haddr, count_cons_of_ne (by simp)] at hid
  exact hid

theorem closeFailed_transMode (s : CipSend) (q : SendReq) :
    (s.closeFailed q).transMode = s.transMode := by
  unfold CipSend.closeFailed
  split
  · rfl
  · split <;> rfl

/-- A request is handled that goes well with the mode. -/
theorem recvTask (h : s.Inv) {r : ℕ → SendResult} {u : CipSend}
    (hcalm : ∀ q ∈ s.queue.head?, q.Calm s.transMode (sendRetry maxRetries r))
    (hu : s.recvTask r = some u) : u.Inv := by
  unfold CipSend.recvTask at hu
  cases hqueue : s.queue with
  | nil =>
    simp only [hqueue] at hu
    cases hu
  | cons q rest =>
    have hq := hcalm q (by rw [hqueue]; rfl)
    simp only [hqueue] at hu
    have hright := sendAnswer_right hq rfl
    unfold SendReq.Calm at hq
    split at hu
    · -- the last attempt failed
      rename_i hcnt
      rw [if_pos hcnt] at hright
      obtain rfl := Option.some.inj hu
      split at hq
      · rename_i n haddr _
        have hfree := h.free hqueue haddr
        split
        · exact hfree.log hright.1 hright.2
        · refine (hfree.closeFailed q).log ?_ ?_ <;> rw [closeFailed_transMode]
          · exact hright.1
          · exact hright.2
      · omega
      · exact hq.elim
    · -- the socket accepted something
      rename_i hcnt
      rw [if_neg hcnt] at hright
      obtain rfl := Option.some.inj hu
      split at hq
      · rename_i n haddr hmode
        rw [if_neg (by rw [hmode]; decide : ¬ s.transMode = .passthrough)]
        refine (h.free hqueue haddr).log ?_ ?_
        · exact hright.1
        · exact hright.2
      · rename_i b o haddr hmode
        rw [if_pos hmode]
        refine (h.drop hqueue haddr).log ?_ ?_
        · exact hright.1
        · exact hright.2
      · exact hq.elim

/-- A step keeps what is so. -/
theorem step (h : s.Inv) {i : CipStep} {u : CipSend} (hcalm : i.Calm s)
    (hu : cipStep i s = some u) : u.Inv := by
  cases i with
  | post event fd txLen r =>
    obtain rfl := Option.some.inj hu
    exact h.post event fd txLen r
  | passthPost event fd bufIdx offset sentCnt =>
    obtain rfl := Option.some.inj hu
    refine { h with once := fun id => ?_ }
    simp only [CipSend.passthPost]
    rw [map_append, count_append, map_singleton, count_singleton,
      if_neg (by simp)]
    exact h.once id
  | setMode mode =>
    obtain rfl := Option.some.inj hu
    exact { h with }
  | connect conId x =>
    simp only [cipStep] at hu
    split at hu
    · cases hu
    · rename_i hx
      rw [not_or, not_lt] at hx
      split at hu
      · obtain rfl := Option.some.inj hu
        exact h
      · rename_i info hstore
        obtain rfl := Option.some.inj hu
        exact { h with info := h.info.cliStore hx.1 hx.2 hstore }
  | disconnect idx =>
    simp only [cipStep] at hu
    split at hu
    · cases hu
    · rename_i x hx
      rw [Option.ite_none_left_eq_some] at hu
      obtain rfl := Option.some.inj hu.2
      exact { h with info := h.info.close hx rfl }
  | handle r => exact h.recvTask hcalm hu

theorem right (h : s.Inv) : SendsRight s := by
  refine ⟨h.answers, fun id hid => ?_, h.passth_kept, h.info.cliNum_eq, h.info.fds_open⟩
  rw [h.once id, if_pos hid]

end CipSend.Inv

/-- **Answers, frees and the table are right** in every run in which every request is handled in the
mode it was made in, all of it or, in the normal mode, nothing is sent. -/
theorem sends_calm (maxClientNum : ℕ) {s : CipSend}
    (h : Machine.Reach cipStep (fun s i => i.Calm s) (cipSendInit maxClientNum) s) :
    SendsRight s :=
  (h.invariant (CipSend.inv_init maxClientNum) fun hi hcalm hu => hi.step hcalm hu).right

/-- A connection, and a request over it of ten bytes. -/
def tenBytes (cnt : ℤ) : List CipStep :=
  [.connect none ⟨5, .tcp, .client, 1, 80, 4000⟩, .post .tcp 5 10 .posted,
    .handle fun _ => ⟨cnt, 0⟩]

/-- All of it is sent at the first attempt. -/
theorem sends_calm_tenBytes :
    ∃ s, Machine.run cipStep (tenBytes 10) (cipSendInit 9) = some s ∧
      s.freed = [.heap 0] ∧ SendsRight s := by
  have hstart : Machine.Reach cipStep (fun s i => CipStep.Calm s i) (cipSendInit 9)
      (cipSendInit 9) := .start
  have hpost := (hstart.next (i := CipStep.connect none ⟨5, .tcp, .client, 1, 80, 4000⟩) trivial
    rfl).next (i := CipStep.post .tcp 5 10 .posted) trivial rfl
  refine ⟨_, rfl, rfl, sends_calm 9 (hpost.next (i := CipStep.handle fun _ => ⟨10, 0⟩) ?_ rfl)⟩
  intro q hq
  cases hq
  exact Or.inr rfl

/-- **`SEND OK` is answered when only a part was accepted.** -/
theorem not_sends_partial :
    ∃ s, Machine.Reach cipStep (fun _ _ => True) (cipSendInit 9) s ∧ ¬SendsRight s := by
  obtain ⟨s, hs, hhandled⟩ : ∃ s, Machine.run cipStep (tenBytes 4) (cipSendInit 9) = some s ∧
      s.handled = [⟨⟨.tcp, 5, .heap 0, 10⟩, 4, .ok⟩] := ⟨_, rfl, rfl⟩
  refine ⟨s, .of_run hs, fun hr => ?_⟩
  have hok := (hr.answers _ (by rw [hhandled]; exact mem_singleton_self _)).1 rfl
  exact absurd hok (by decide)

end Gd32.App
