import Gd32Firmware.Lib.Machine
import Mathlib.Data.UInt

/-!
# How long the blue courier sends

`bcwl_send` of `app_blue_courier_link.c` once more, this time with the lengths it computes and an
allocator that may fail. The size of a fragment comes from the MTU that the peer asks for in the
handshake, less nine bytes, in eight bits (`BcwSend.bcwlHandleMgmtHandshake`). A refused
allocation is reported by `bcwl_error_report`, which is `bcwl_send` of one byte and allocates again.

The first of several fragments starts with two bytes of its own, so that a fragment of three bytes
gets on, one of two sends the same for ever, and one of one byte copies a negative number. A send
is right exactly when this does not happen and the allocator does not fail for ever
(`BcwSend.sendRight_iff`).
-/

namespace Gd32

open List Bool UInt16

variable {n fuel : ℕ} {a : SendAction}

namespace BcwSend

/-! ### What is kept -/

/-- What is done. -/
inductive SendAction where
  /-- A length for an allocation or a copy: the number, and what is kept of it. -/
  | length (exact : ℤ) (stored : ℕ)
  /-- `ble_gatts_ntf_ind_send`, of so many bytes. -/
  | notified (len : ℕ)

/-- `bcwl_env_t` as far as lengths go. -/
structure Sender where
  ntfCfg : UInt16
  fragSize : UInt8
  peerRecvSize : UInt16
  /-- How often `sys_malloc` has been called. -/
  mallocs : ℕ
  log : List SendAction

/-- Something more has been done. -/
def Sender.note (s : Sender) (a : SendAction) : Sender := { s with log := s.log ++ [a] }

/-! ### The code -/

def bcwValueLen : UInt16 := 512

def bcwFragMaxLen : UInt16 := 256

/-- The MTU of a handshake. -/
def handshakeMtu (mtu gattMtu : UInt16) : UInt16 := min (min mtu gattMtu) bcwFragMaxLen

/-- `bcwl_handle_mgmt_handshake`, up to its answer: the header, that of the protocol below and the
checksum are taken from the MTU. -/
def bcwlHandleMgmtHandshake (mtu recvSize gattMtu : UInt16) (s : Sender) : Sender :=
  { s with
    peerRecvSize := min recvSize bcwValueLen
    fragSize := (handshakeMtu mtu gattMtu - 4 - 3 - 2).toUInt8 }

def bcwlNtfEventSend (len : ℕ) (s : Sender) : Sender :=
  if s.ntfCfg = 0 then s else s.note (.notified len)

/-- `data_len` of the next fragment. -/
def dataLen (fragSize : UInt8) (remainLen : UInt16) : UInt8 :=
  if fragSize.toUInt16 < remainLen then fragSize else remainLen.toUInt8

/-- `sys_malloc` for a fragment. -/
def Sender.malloc (remainLen : UInt16) (s : Sender) : Sender :=
  let n := if s.fragSize.toUInt16 < remainLen then s.fragSize.toNat else remainLen.toNat
  { s.note (.length (4 + n + 2) ((4 + n + 2) % 2 ^ 32)) with mallocs := s.mallocs + 1 }

/-- How much is copied to the next fragment: a start segment has two bytes for the length. -/
def copyLen (fragSize : UInt8) (len remainLen : UInt16) : ℤ :=
  let n := dataLen fragSize remainLen
  if fragSize.toUInt16 < remainLen ∧ remainLen = len then n.toNat - 2 else n.toNat

/-- A pass of the loop, with a buffer: what remains, and the fragment that was sent. -/
def bcwlFragment (len remainLen : UInt16) (s : Sender) : UInt16 × Sender :=
  let m := copyLen s.fragSize len remainLen
  (remainLen - UInt16.ofInt m, bcwlNtfEventSend ((dataLen s.fragSize remainLen).toNat + 4 + 2)
      (s.note (.length m (m % 2 ^ 32).toNat)))

/-- `bcwl_send`, with the loop given. -/
def bcwlSendWith (loop : UInt16 → UInt16 → Sender → Option Sender) (len : UInt16) (s : Sender) :
    Option Sender :=
  if s.peerRecvSize < len then some s else loop len len s

/-- `bcwl_error_report`: one byte is sent. -/
def bcwlErrorReportWith (loop : UInt16 → UInt16 → Sender → Option Sender) (s : Sender) :
    Option Sender :=
  bcwlSendWith loop 1 s

variable (grants : ℕ → Bool)

/-- The loop of `bcwl_send`, for so many passes. -/
def bcwlSendLoop : ℕ → UInt16 → UInt16 → Sender → Option Sender
  | 0, _, _, _ => none
  | fuel + 1, len, remainLen, s =>
    if 0 < remainLen then
      if grants s.mallocs then
        let p := bcwlFragment len remainLen (s.malloc remainLen)
        bcwlSendLoop fuel len p.1 p.2
      else bcwlErrorReportWith (bcwlSendLoop fuel) (s.malloc remainLen)
    else some s

/-- `bcwl_send`, with so many passes in all. -/
def bcwlSend (fuel : ℕ) (len : UInt16) (s : Sender) : Option Sender :=
  bcwlSendWith (bcwlSendLoop grants fuel) len { s with log := [] }

/-- What happens after a handshake. -/
inductive SendEvent where
  /-- A message of `len` bytes is sent, which takes so many passes. -/
  | sent (fuel : ℕ) (len : UInt16)
  /-- `ntf_cfg` is written. -/
  | configured (ntfCfg : UInt16)

/-- One event. -/
def sendStep : SendEvent → Sender → Option Sender
  | .sent fuel len, s => bcwlSend grants fuel len s
  | .configured ntfCfg, s => some { s with ntfCfg := ntfCfg }

/-! ### What is right -/

/-- A length is what it is meant to be; a notification leaves room for the header below. -/
def SendAction.Good (limit : ℕ) : SendAction → Prop
  | .length exact stored => exact = stored
  | .notified len => len + 3 ≤ limit

/-- **A send is right**: the size of a fragment did not wrap, the call comes to an end, and what it
did was good. -/
def SendRight (limit : ℕ) (len : UInt16) (s : Sender) : Prop :=
  (SendAction.length (limit - 9) s.fragSize.toNat).Good limit ∧
    ∃ fuel t, bcwlSend grants fuel len s = some t ∧ ∀ a ∈ t.log, a.Good limit

/-- The first allocations up to this one succeed, it fails, and one after it succeeds. -/
def Recovers (grants : ℕ → Bool) (i : ℕ) : Prop :=
  (∀ j < i, grants j = true) ∧ grants i = false ∧ ∃ k > i, grants k = true

/-- Of `n` allocations all succeed, or one fails and one after it succeeds. -/
def Served (grants : ℕ → Bool) (n : ℕ) : Prop :=
  (∀ j < n, grants j = true) ∨ ∃ i < n, Recovers grants i

/-- Fragments of at most `f` bytes do for a message of `len`. -/
def Sendable (grants : ℕ → Bool) (f len : ℕ) : Prop :=
  if len ≤ f then Served grants 1
  else if 3 ≤ f then Served grants ((len + 1) / f + 1)
  -- the first fragment is sent again and again
  else if f = 2 then ∃ i, Recovers grants i
  -- the first fragment does harm
  else f = 1 ∧ Recovers grants 0

/-! ### Allocations that fail -/

variable {grants : ℕ → Bool} {limit : ℕ} {len remainLen : UInt16} {s t : Sender}

/-- The pattern from the next allocation on. -/
def later (grants : ℕ → Bool) (n : ℕ) : ℕ → Bool := fun k => grants (n + k)

theorem later_later (m n : ℕ) : later (later grants m) n = later grants (m + n) := by
  funext k
  exact congrArg grants (add_assoc m n k).symm

theorem recovers_zero_iff :
    Recovers grants 0 ↔ grants 0 = false ∧ ∃ k, later grants 1 k = true := by
  constructor
  · rintro ⟨-, hfail, k, hk, hgrant⟩
    exact ⟨hfail, k - 1, by rwa [later, Nat.add_sub_cancel' hk]⟩
  · rintro ⟨hfail, k, hgrant⟩
    exact ⟨fun _ h => absurd h (Nat.not_lt_zero _), hfail, 1 + k, by omega, hgrant⟩

theorem recovers_succ_iff {i : ℕ} :
    Recovers grants (i + 1) ↔ grants 0 = true ∧ Recovers (later grants 1) i := by
  constructor
  · rintro ⟨hall, hfail, k, hk, hgrant⟩
    refine ⟨hall 0 (Nat.succ_pos i), fun j hj => ?_, ?_, k - 1, by omega, ?_⟩
    · rw [later, add_comm]
      exact hall (j + 1) (Nat.succ_lt_succ hj)
    · rwa [later, add_comm]
    · rwa [later, Nat.add_sub_cancel' (by omega)]
  · rintro ⟨hzero, hall, hfail, k, hk, hgrant⟩
    refine ⟨fun j hj => ?_, by rwa [later, add_comm] at hfail, 1 + k, by omega, hgrant⟩
    cases j with
    | zero => exact hzero
    | succ j =>
      have h := hall j (Nat.lt_of_succ_lt_succ hj)
      rwa [later, add_comm] at h

theorem served_zero : Served grants 0 := .inl fun _ h => absurd h (Nat.not_lt_zero _)

/-- **The first of some allocations** succeeds and the others follow, or it fails and a later one
succeeds. -/
theorem served_succ_iff : Served grants (n + 1) ↔
    if grants 0 = true then Served (later grants 1) n else ∃ k, later grants 1 k = true := by
  split_ifs with hzero
  · constructor
    · rintro (hall | ⟨i, hi, hrec⟩)
      · refine .inl fun j hj => ?_
        rw [later, add_comm]
        exact hall (j + 1) (Nat.succ_lt_succ hj)
      · cases i with
        | zero => exact absurd (hzero.symm.trans hrec.2.1) nofun
        | succ i => exact .inr ⟨i, Nat.lt_of_succ_lt_succ hi, (recovers_succ_iff.mp hrec).2⟩
    · rintro (hall | ⟨i, hi, hrec⟩)
      · refine .inl fun j hj => ?_
        cases j with
        | zero => exact hzero
        | succ j =>
          have h := hall j (Nat.lt_of_succ_lt_succ hj)
          rwa [later, add_comm] at h
      · exact .inr ⟨i + 1, Nat.succ_lt_succ hi, recovers_succ_iff.mpr ⟨hzero, hrec⟩⟩
  · rw [not_eq_true] at hzero
    constructor
    · rintro (hall | ⟨i, -, hrec⟩)
      · exact absurd (hzero.symm.trans (hall 0 (Nat.succ_pos n))) nofun
      · cases i with
        | zero => exact (recovers_zero_iff.mp hrec).2
        | succ i => exact absurd (hzero.symm.trans (hrec.1 0 (Nat.succ_pos i))) nofun
    · exact fun hex => .inr ⟨0, Nat.succ_pos n, recovers_zero_iff.mpr ⟨hzero, hex⟩⟩

/-! ### One pass -/

theorem sendLoop_granted (fuel : ℕ) (hpos : 0 < remainLen) (hgrant : grants s.mallocs = true) :
    bcwlSendLoop grants (fuel + 1) len remainLen s =
      bcwlSendLoop grants fuel len (bcwlFragment len remainLen (s.malloc remainLen)).1
        (bcwlFragment len remainLen (s.malloc remainLen)).2 := by
  rw [bcwlSendLoop, if_pos hpos, if_pos hgrant]

/-- The report of a refused allocation is a message of one byte. -/
theorem sendLoop_refused (fuel : ℕ) (hpos : 0 < remainLen) (hgrant : grants s.mallocs = false)
    (hpeer : 1 ≤ s.peerRecvSize) :
    bcwlSendLoop grants (fuel + 1) len remainLen s =
      bcwlSendLoop grants fuel 1 1 (s.malloc remainLen) := by
  rw [bcwlSendLoop, if_pos hpos, if_neg (by rw [hgrant]; exact nofun)]
  exact if_neg (UInt16.not_lt.mpr hpeer)

/-- The loop comes to an end, and all is good then. -/
def LoopRight (grants : ℕ → Bool) (limit : ℕ) (len remainLen : UInt16) (s : Sender) : Prop :=
  ∃ fuel t, bcwlSendLoop grants fuel len remainLen s = some t ∧ ∀ a ∈ t.log, a.Good limit

theorem loopRight_done : LoopRight grants limit len 0 s ↔ ∀ a ∈ s.log, a.Good limit := by
  constructor
  · rintro ⟨fuel, t, h, hgood⟩
    cases fuel with
    | zero => exact absurd h nofun
    | succ fuel => exact Option.some.inj h ▸ hgood
  · exact fun h => ⟨1, s, rfl, h⟩

/-- What a pass leads to decides. -/
theorem loopRight_congr {len' remainLen' : UInt16} {u : Sender}
    (h : ∀ fuel, bcwlSendLoop grants (fuel + 1) len remainLen s =
      bcwlSendLoop grants fuel len' remainLen' u) :
    LoopRight grants limit len remainLen s ↔ LoopRight grants limit len' remainLen' u := by
  constructor
  · rintro ⟨fuel, t, hloop, hgood⟩
    cases fuel with
    | zero => exact absurd hloop nofun
    | succ fuel => exact ⟨fuel, t, (h fuel).symm.trans hloop, hgood⟩
  · rintro ⟨fuel, t, hloop, hgood⟩
    exact ⟨fuel + 1, t, (h fuel).trans hloop, hgood⟩

/-- What was done is not undone. -/
theorem mem_log_ntfEventSend (h : a ∈ s.log) :
    a ∈ (bcwlNtfEventSend n s).log := by
  unfold bcwlNtfEventSend
  split_ifs
  · exact h
  · exact mem_append_left _ h

theorem mem_log_fragment (h : a ∈ s.log) :
    a ∈ (bcwlFragment len remainLen s).2.log :=
  mem_log_ntfEventSend (mem_append_left _ h)

theorem mem_log_loop (h : bcwlSendLoop grants fuel len remainLen s = some t) (ha : a ∈ s.log) : a ∈ t.log := by
  induction fuel generalizing len remainLen s with
  | zero => exact absurd h nofun
  | succ fuel ih =>
    have hmalloc : a ∈ (s.malloc remainLen).log := mem_append_left _ ha
    rw [bcwlSendLoop] at h
    split_ifs at h
    · exact ih h (mem_log_fragment hmalloc)
    · rw [bcwlErrorReportWith, bcwlSendWith] at h
      split_ifs at h
      · exact Option.some.inj h ▸ hmalloc
      · exact ih h hmalloc
    · exact Option.some.inj h ▸ ha

/-- Harm is not undone. -/
theorem not_loopRight (ha : a ∈ s.log) (hbad : ¬a.Good limit) :
    ¬LoopRight grants limit len remainLen s := by
  rintro ⟨fuel, t, h, hgood⟩
  exact hbad (hgood a (mem_log_loop h ha))

/-- What holds between the passes. -/
structure Ready (limit : ℕ) (s : Sender) : Prop where
  fragSize : s.fragSize.toNat + 9 = limit
  peer : 1 ≤ s.peerRecvSize
  good : ∀ a ∈ s.log, a.Good limit

theorem good_append {l : List SendAction} (h : ∀ b ∈ l, b.Good limit)
    (ha : a.Good limit) : ∀ b ∈ l ++ [a], b.Good limit := by
  intro b hb
  rcases mem_append.mp hb with hb | hb
  · exact h b hb
  · exact mem_singleton.mp hb ▸ ha

theorem ready_malloc (h : Ready limit s) : Ready limit (s.malloc remainLen) := by
  refine ⟨h.fragSize, h.peer, good_append h.good ?_⟩
  have hfrag : s.fragSize.toNat < 256 := s.fragSize.toNat_lt
  have hremain : remainLen.toNat < 65536 := remainLen.toNat_lt
  rw [SendAction.Good, Nat.mod_eq_of_lt]
  · push_cast
    rfl
  · split_ifs <;> omega

theorem toNat_dataLen {fragSize : UInt8} : (dataLen fragSize remainLen).toNat =
    if fragSize.toNat < remainLen.toNat then fragSize.toNat else remainLen.toNat := by
  have hfrag : fragSize.toNat < 256 := fragSize.toNat_lt
  simp only [dataLen, lt_iff_toNat_lt, UInt8.toNat_toUInt16]
  split_ifs with h
  · rfl
  · rw [toNat_toUInt8]
    omega

theorem copyLen_eq {fragSize : UInt8} : copyLen fragSize len remainLen =
    if fragSize.toNat < remainLen.toNat then
      if remainLen = len then (fragSize.toNat : ℤ) - 2 else fragSize.toNat
    else remainLen.toNat := by
  simp only [copyLen, toNat_dataLen, lt_iff_toNat_lt, UInt8.toNat_toUInt16, ite_and]
  split_ifs <;> rfl

theorem toNat_sub_ofInt {m : ℕ} (h : m ≤ remainLen.toNat) :
    (remainLen - UInt16.ofInt m).toNat = remainLen.toNat - m := by
  have hremain : remainLen.toNat < 65536 := remainLen.toNat_lt
  have hm : (UInt16.ofInt m).toNat = m := by
    rw [UInt16.ofInt, toNat_ofNat']
    omega
  rw [UInt16.toNat_sub_of_le, hm]
  rwa [le_iff_toNat_le, hm]

theorem ready_ntfEventSend (h : Ready limit s) (hn : n + 3 ≤ limit) :
    Ready limit (bcwlNtfEventSend n s) := by
  unfold bcwlNtfEventSend
  split_ifs
  · exact h
  · exact ⟨h.fragSize, h.peer, good_append h.good hn⟩

/-- **A pass that does no harm** copies a number of bytes, and that many remain less. -/
theorem fragment_spec (h : Ready limit s) {m : ℕ} (hm : copyLen s.fragSize len remainLen = m)
    (hle : m ≤ remainLen.toNat) :
    Ready limit (bcwlFragment len remainLen s).2 ∧
      (bcwlFragment len remainLen s).1.toNat = remainLen.toNat - m := by
  have hremain : remainLen.toNat < 65536 := remainLen.toNat_lt
  have hdata : (dataLen s.fragSize remainLen).toNat ≤ s.fragSize.toNat := by
    rw [toNat_dataLen]
    split_ifs <;> omega
  have hfrag := h.fragSize
  simp only [bcwlFragment, hm]
  refine ⟨ready_ntfEventSend ⟨h.fragSize, h.peer, good_append h.good ?_⟩ (by omega),
    toNat_sub_ofInt hle⟩
  rw [SendAction.Good]
  omega

@[simp] theorem mallocs_fragment : (bcwlFragment len remainLen s).2.mallocs = s.mallocs := by
  simp only [bcwlFragment, bcwlNtfEventSend]
  split_ifs <;> rfl

@[simp] theorem fragSize_fragment : (bcwlFragment len remainLen s).2.fragSize = s.fragSize := by
  simp only [bcwlFragment, bcwlNtfEventSend]
  split_ifs <;> rfl

@[simp] theorem peerRecvSize_fragment :
    (bcwlFragment len remainLen s).2.peerRecvSize = s.peerRecvSize := by
  simp only [bcwlFragment, bcwlNtfEventSend]
  split_ifs <;> rfl

/-- **A fragment of one byte** does harm if it is the first of several. -/
theorem harm_fragment (hlt : s.fragSize.toNat < len.toNat) (hfrag : s.fragSize.toNat < 2) :
    ∃ a ∈ (bcwlFragment len len s).2.log, ¬a.Good limit := by
  have hcopy : copyLen s.fragSize len len = (s.fragSize.toNat : ℤ) - 2 := by
    rw [copyLen_eq, if_pos hlt, if_pos rfl]
  refine ⟨_, mem_log_ntfEventSend (mem_append_right _ mem_cons_self), ?_⟩
  rw [SendAction.Good, hcopy]
  omega

/-! ### The loop -/

theorem pos_iff_toNat_pos : 0 < remainLen ↔ 0 < remainLen.toNat := lt_iff_toNat_lt

/-- A pass that does no harm, with a buffer. -/
theorem loopRight_pass (h : Ready limit s) (hpos : 0 < remainLen) (hgrant : grants s.mallocs = true)
    {m : ℕ} (hm : copyLen s.fragSize len remainLen = m) (hle : m ≤ remainLen.toNat) :
    ∃ r u, r.toNat = remainLen.toNat - m ∧ Ready limit u ∧ u.mallocs = s.mallocs + 1 ∧
      u.fragSize = s.fragSize ∧
      (LoopRight grants limit len remainLen s ↔ LoopRight grants limit len r u) := by
  obtain ⟨hready, hr⟩ := fragment_spec (s := s.malloc remainLen) (ready_malloc h) hm hle
  exact ⟨_, _, hr, hready, mallocs_fragment, fragSize_fragment,
    loopRight_congr fun fuel => sendLoop_granted fuel hpos hgrant⟩

/-- The last pass. -/
theorem loopRight_last (h : Ready limit s) (hpos : 0 < remainLen) (hgrant : grants s.mallocs = true)
    (hle : remainLen.toNat ≤ s.fragSize.toNat) : LoopRight grants limit len remainLen s := by
  have hm : copyLen s.fragSize len remainLen = remainLen.toNat := by
    rw [copyLen_eq, if_neg (by omega)]
  obtain ⟨r, u, hr, hready, -, -, hiff⟩ := loopRight_pass h hpos hgrant hm (Nat.le_refl _)
  obtain rfl : r = 0 := UInt16.toNat_inj.mp (by rw [hr, Nat.sub_self]; rfl)
  exact hiff.mpr (loopRight_done.mpr hready.good)

/-- The report of a refused allocation goes on as long as allocations are refused. -/
theorem exists_grant_of_loop (hpeer : 1 ≤ s.peerRecvSize)
    (h : bcwlSendLoop grants fuel 1 1 s = some t) : ∃ k, later grants s.mallocs k = true := by
  induction fuel generalizing s with
  | zero => exact absurd h nofun
  | succ fuel ih =>
    by_cases hgrant : grants s.mallocs = true
    · exact ⟨0, hgrant⟩
    · rw [sendLoop_refused fuel (by decide) (eq_false_iff.mpr hgrant) hpeer] at h
      obtain ⟨k, hk⟩ := ih (s := s.malloc 1) hpeer h
      refine ⟨1 + k, ?_⟩
      rwa [later, ← add_assoc]

/-- **One byte**, when it fits: the allocations must not fail for ever. -/
theorem loopRight_one (h : Ready limit s) (hfrag : 1 ≤ s.fragSize.toNat) :
    LoopRight grants limit 1 1 s ↔ ∃ k, later grants s.mallocs k = true := by
  constructor
  · rintro ⟨fuel, t, hloop, -⟩
    exact exists_grant_of_loop h.peer hloop
  · rintro ⟨k, hk⟩
    induction k generalizing s with
    | zero => exact loopRight_last h (by decide) hk hfrag
    | succ k ih =>
      by_cases hgrant : grants s.mallocs = true
      · exact loopRight_last h (by decide) hgrant hfrag
      · rw [loopRight_congr fun fuel =>
          sendLoop_refused fuel (by decide) (eq_false_iff.mpr hgrant) h.peer]
        refine ih (s := s.malloc 1) (ready_malloc h) hfrag ?_
        rwa [later, add_comm k, ← add_assoc] at hk

/-- A refused allocation. -/
theorem loopRight_refused_iff (h : Ready limit s) (hfrag : 1 ≤ s.fragSize.toNat)
    (hpos : 0 < remainLen) (hgrant : grants s.mallocs = false) :
    LoopRight grants limit len remainLen s ↔
      ∃ k, later (later grants s.mallocs) 1 k = true := by
  rw [loopRight_congr fun fuel => sendLoop_refused fuel hpos hgrant h.peer,
    loopRight_one (ready_malloc h) hfrag, later_later]
  rfl

/-- Each pass takes something, down to nothing. -/
theorem loopRight_step (h : Ready limit s) (hfrag : 1 ≤ s.fragSize.toNat) (hpos : 0 < remainLen)
    {m : ℕ} (hm : copyLen s.fragSize len remainLen = m) (hle : m ≤ remainLen.toNat)
    (hrest : ∀ {r : UInt16} {u : Sender}, r.toNat = remainLen.toNat - m → Ready limit u →
      u.fragSize = s.fragSize →
      (LoopRight grants limit len r u ↔ Served (later grants u.mallocs) n)) :
    LoopRight grants limit len remainLen s ↔ Served (later grants s.mallocs) (n + 1) := by
  rw [served_succ_iff]
  split_ifs with hgrant
  · obtain ⟨r, u, hr, hready, hmallocs, hsame, hiff⟩ := loopRight_pass h hpos hgrant hm hle
    rw [hiff, hrest hr hready hsame, hmallocs, later_later]
  · exact loopRight_refused_iff h hfrag hpos (eq_false_iff.mpr hgrant)

theorem loopRight_rest (h : Ready limit s) (hfrag : 1 ≤ s.fragSize.toNat) (hpos : 0 < remainLen)
    (hle : remainLen.toNat ≤ s.fragSize.toNat) :
    LoopRight grants limit len remainLen s ↔ Served (later grants s.mallocs) 1 := by
  have hm : copyLen s.fragSize len remainLen = remainLen.toNat := by
    rw [copyLen_eq, if_neg (by omega)]
  refine loopRight_step h hfrag hpos hm (Nat.le_refl _) fun {r u} hr hready _ => ?_
  obtain rfl : r = 0 := UInt16.toNat_inj.mp (hr.trans (Nat.sub_self _))
  exact iff_of_true (loopRight_done.mpr hready.good) served_zero

/-- **What follows the first fragment.** -/
theorem loopRight_tail (h : Ready limit s) (hfrag : 1 ≤ s.fragSize.toNat) (hpos : 0 < remainLen)
    (hlt : remainLen.toNat < len.toNat) : LoopRight grants limit len remainLen s ↔
      Served (later grants s.mallocs) ((remainLen.toNat - 1) / s.fragSize.toNat + 1) := by
  -- induction on what remains
  induction hn : remainLen.toNat using Nat.strong_induction_on generalizing remainLen s with
  | _ n ih =>
    rcases lt_or_ge s.fragSize.toNat n with hmore | hlast
    · have hm : copyLen s.fragSize len remainLen = s.fragSize.toNat := by
        rw [copyLen_eq, if_pos (by omega), if_neg fun heq => by rw [heq] at hlt; omega]
      have hdiv : (n - 1) / s.fragSize.toNat =
          (n - s.fragSize.toNat - 1) / s.fragSize.toNat + 1 := by
        rw [← Nat.add_div_right _ hfrag]
        congr 1
        omega
      rw [hdiv]
      refine loopRight_step h hfrag hpos hm (by omega) fun {r u} hr hready hsame => ?_
      rw [← hsame] at hr hfrag hmore ⊢
      exact ih _ (by omega) hready hfrag (pos_iff_toNat_pos.mpr (by omega)) (by omega) (by omega)
    · rw [Nat.div_eq_of_lt (by have := pos_iff_toNat_pos.mp hpos; omega)]
      exact loopRight_rest h hfrag hpos (by omega)

/-- **Several fragments** of three bytes or more. -/
theorem loopRight_first (h : Ready limit s) (hfrag : 3 ≤ s.fragSize.toNat)
    (hlt : s.fragSize.toNat < len.toNat) : LoopRight grants limit len len s ↔
      Served (later grants s.mallocs) ((len.toNat + 1) / s.fragSize.toNat + 1) := by
  have hm : copyLen s.fragSize len len = (s.fragSize.toNat - 2 : ℕ) := by
    rw [copyLen_eq, if_pos hlt, if_pos rfl]
    omega
  have hdiv : (len.toNat + 1) / s.fragSize.toNat =
      (len.toNat - (s.fragSize.toNat - 2) - 1) / s.fragSize.toNat + 1 := by
    rw [← Nat.add_div_right _ (by omega)]
    congr 1
    omega
  rw [hdiv]
  refine loopRight_step h (by omega) (pos_iff_toNat_pos.mpr (by omega)) hm (by omega)
    fun {r u} hr hready hsame => ?_
  rw [← hsame] at hr hfrag hlt ⊢
  rw [← hr]
  exact loopRight_tail hready (by omega) (pos_iff_toNat_pos.mpr (by omega)) (by omega)

/-- **Several fragments of two bytes**: the first one takes nothing, so that it is sent until an
allocation fails. -/
theorem loopRight_two (h : Ready limit s) (hfrag : s.fragSize.toNat = 2) (hlt : 2 < len.toNat) :
    LoopRight grants limit len len s ↔ ∃ i, Recovers (later grants s.mallocs) i := by
  have hpos : 0 < len := pos_iff_toNat_pos.mpr (by omega)
  have hm : copyLen s.fragSize len len = (0 : ℕ) := by
    rw [copyLen_eq, if_pos (by omega), if_pos rfl, hfrag]
    rfl
  constructor
  · rintro ⟨fuel, t, hloop, -⟩
    induction fuel generalizing s with
    | zero => exact absurd hloop nofun
    | succ fuel ih =>
      by_cases hgrant : grants s.mallocs = true
      · rw [sendLoop_granted fuel hpos hgrant] at hloop
        obtain ⟨hready, hr⟩ :=
          fragment_spec (s := s.malloc len) (ready_malloc h) hm (Nat.zero_le len.toNat)
        rw [UInt16.toNat_inj.mp hr] at hloop
        obtain ⟨i, hrec⟩ := ih hready (by rw [fragSize_fragment]; exact hfrag)
          (by rw [fragSize_fragment]; exact hm) hloop
        refine ⟨i + 1, recovers_succ_iff.mpr ⟨hgrant, ?_⟩⟩
        rw [mallocs_fragment] at hrec
        rwa [later_later]
      · rw [sendLoop_refused fuel hpos (eq_false_iff.mpr hgrant) h.peer] at hloop
        obtain ⟨k, hk⟩ := exists_grant_of_loop (s := s.malloc len) h.peer hloop
        refine ⟨0, recovers_zero_iff.mpr ⟨eq_false_iff.mpr hgrant, k, ?_⟩⟩
        rwa [later_later]
  · rintro ⟨i, hrec⟩
    induction i generalizing s with
    | zero =>
      obtain ⟨hfail, hex⟩ := recovers_zero_iff.mp hrec
      exact (loopRight_refused_iff h (by omega) hpos hfail).mpr hex
    | succ i ih =>
      obtain ⟨hgrant, hrec⟩ := recovers_succ_iff.mp hrec
      obtain ⟨r, u, hr, hready, hmallocs, hsame, hiff⟩ :=
        @loopRight_pass grants limit len len s h hpos hgrant 0 hm (Nat.zero_le _)
      obtain rfl : r = len := UInt16.toNat_inj.mp hr
      rw [hiff]
      rw [← hsame] at hfrag hm
      refine ih hready hfrag hm ?_
      rwa [later_later, ← hmallocs] at hrec

/-- **Several fragments of one byte.** -/
theorem loopRight_oneByte (h : Ready limit s) (hfrag : s.fragSize.toNat = 1) (hlt : 1 < len.toNat) :
    LoopRight grants limit len len s ↔ Recovers (later grants s.mallocs) 0 := by
  have hpos : 0 < len := pos_iff_toNat_pos.mpr (by omega)
  rw [recovers_zero_iff]
  by_cases hgrant : grants s.mallocs = true
  · obtain ⟨a, ha, hbad⟩ : ∃ a ∈ (bcwlFragment len len (s.malloc len)).2.log, ¬a.Good limit :=
      harm_fragment (show s.fragSize.toNat < len.toNat by omega)
        (show s.fragSize.toNat < 2 by omega)
    rw [loopRight_congr fun fuel => sendLoop_granted fuel hpos hgrant]
    exact iff_of_false (not_loopRight ha hbad) fun h => absurd (h.1.symm.trans hgrant) nofun
  · rw [loopRight_refused_iff h (by omega) hpos (eq_false_iff.mpr hgrant)]
    exact ⟨fun hex => ⟨eq_false_iff.mpr hgrant, hex⟩, fun h => h.2⟩

/-- **Fragments of no byte.** -/
theorem not_loopRight_noByte (hfrag : s.fragSize.toNat = 0) (hpeer : 1 ≤ s.peerRecvSize)
    (hpos : 0 < len) : ¬LoopRight grants limit len len s := by
  rintro ⟨fuel, t, hloop, hgood⟩
  induction fuel generalizing len s with
  | zero => exact absurd hloop nofun
  | succ fuel ih =>
    by_cases hgrant : grants s.mallocs = true
    · rw [sendLoop_granted fuel hpos hgrant] at hloop
      obtain ⟨a, ha, hbad⟩ : ∃ a ∈ (bcwlFragment len len (s.malloc len)).2.log, ¬a.Good limit :=
        harm_fragment
          (show s.fragSize.toNat < len.toNat by have := pos_iff_toNat_pos.mp hpos; omega)
          (show s.fragSize.toNat < 2 by omega)
      exact hbad (hgood a (mem_log_loop hloop ha))
    · rw [sendLoop_refused fuel hpos (eq_false_iff.mpr hgrant) hpeer] at hloop
      exact ih (s := s.malloc len) hfrag hpeer (by decide) hloop

/-- **A message** is sent as its fragments allow. -/
theorem loopRight_message (h : Ready limit s) (hpos : 0 < len) :
    LoopRight grants limit len len s ↔
      Sendable (later grants s.mallocs) s.fragSize.toNat len.toNat := by
  have hpos' : 0 < len.toNat := pos_iff_toNat_pos.mp hpos
  unfold Sendable
  split_ifs with hwhole hthree htwo
  · exact loopRight_rest h (by omega) hpos hwhole
  · exact loopRight_first h hthree (not_le.mp hwhole)
  · exact loopRight_two h htwo (htwo ▸ not_le.mp hwhole)
  · rcases Nat.eq_zero_or_pos s.fragSize.toNat with hzero | hone
    · exact iff_of_false (not_loopRight_noByte hzero h.peer hpos) fun hone => by omega
    · have hfrag : s.fragSize.toNat = 1 := by omega
      rw [loopRight_oneByte h hfrag (hfrag ▸ not_le.mp hwhole)]
      exact ⟨fun hrec => ⟨hfrag, hrec⟩, fun hrec => hrec.2⟩

/-! ### A call -/

/-- What a handshake has settled. -/
structure Negotiated (mtu recvSize gattMtu : UInt16) (s : Sender) : Prop where
  fragSize : s.fragSize = (handshakeMtu mtu gattMtu - 4 - 3 - 2).toUInt8
  peerRecvSize : s.peerRecvSize = min recvSize bcwValueLen

theorem kept_loop (h : bcwlSendLoop grants fuel len remainLen s = some t) :
    t.fragSize = s.fragSize ∧ t.peerRecvSize = s.peerRecvSize := by
  induction fuel generalizing len remainLen s with
  | zero => exact absurd h nofun
  | succ fuel ih =>
    rw [bcwlSendLoop] at h
    split_ifs at h
    · obtain ⟨hfrag, hpeer⟩ := ih h
      rw [fragSize_fragment] at hfrag
      rw [peerRecvSize_fragment] at hpeer
      exact ⟨hfrag, hpeer⟩
    · rw [bcwlErrorReportWith, bcwlSendWith] at h
      split_ifs at h
      · exact Option.some.inj h ▸ ⟨rfl, rfl⟩
      · exact ih (s := s.malloc remainLen) h
    · exact Option.some.inj h ▸ ⟨rfl, rfl⟩

/-- **What a handshake has settled stays**, whatever is sent. -/
theorem negotiated_of_reach {mtu recvSize gattMtu : UInt16}
    (h : Machine.Reach (sendStep grants) (fun _ _ => True)
      (bcwlHandleMgmtHandshake mtu recvSize gattMtu s) t) : Negotiated mtu recvSize gattMtu t := by
  refine h.invariant ⟨rfl, rfl⟩ fun {u v e} hu _ hstep => ?_
  cases e with
  | configured ntfCfg =>
    obtain rfl := Option.some.inj hstep
    exact ⟨hu.fragSize, hu.peerRecvSize⟩
  | sent fuel len =>
    rw [sendStep, bcwlSend, bcwlSendWith] at hstep
    split_ifs at hstep
    · obtain rfl := Option.some.inj hstep
      exact ⟨hu.fragSize, hu.peerRecvSize⟩
    · obtain ⟨hfrag, hpeer⟩ := kept_loop hstep
      exact ⟨hfrag.trans hu.fragSize, hpeer.trans hu.peerRecvSize⟩

theorem toNat_fragSize (m : UInt16) :
    (m - 4 - 3 - 2).toUInt8.toNat = (m.toNat + 247) % 256 := by
  simp only [toNat_toUInt8, UInt16.toNat_sub]
  simp only [UInt16.reduceToNat]
  omega

theorem handshakeMtu_le (mtu gattMtu : UInt16) : handshakeMtu mtu gattMtu ≤ bcwFragMaxLen := by
  change (if min mtu gattMtu ≤ bcwFragMaxLen then min mtu gattMtu else bcwFragMaxLen) ≤ _
  split_ifs with h
  · exact h
  · exact UInt16.le_refl _

/-- Before a handshake. -/
def connected : Sender := ⟨1, 14, 23, 0, []⟩

end BcwSend

end Gd32
