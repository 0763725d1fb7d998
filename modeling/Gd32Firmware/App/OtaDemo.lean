import Gd32Firmware.App.HttpHead
import Gd32Firmware.Lib.Loop
import Gd32Firmware.Ota.Containment

/-!
# Downloading an image over HTTP

`ota_demo.c`: `http_rsp_image` reads the head of the response off the first receive, and what it
does not find there it takes for absent: a header that has not ended is one of length zero, and a
body without a length one of length zero. Then it writes what it receives until as many bytes as
announced have come, and no end of the stream stops it before. When more bytes than announced came
with the head it asks for a negative number of further ones and returns success.

The socket is outside the repository. It enters as `Transport`, and a response that comes
in pieces of any size as `Stream`.
-/

namespace Gd32.App

open NorFlash Ota Loop List

/-! ### The data -/

def recbufferLen : ℕ := 1516

/-- An `int32_t` passed as a `size_t`, or compared with a `uint32_t`. -/
def sizeT (n : ℤ) : ℕ := (n % 2 ^ 32).toNat

/-- A connection: what a receive of at most that many bytes delivers, a negative return being an
error. -/
structure Transport (σ : Type) where
  /-- `recv`, or `mbedtls_ssl_read`. -/
  recv : ℕ → σ → Except ℤ (List UInt8) × σ

/-- The errors after which the loop tries again: `MBEDTLS_ERR_SSL_WANT_READ` and
`MBEDTLS_ERR_SSL_WANT_WRITE` with TLS, `-EAGAIN` without. -/
def retryable (ssl : Bool) (e : ℤ) : Bool := if ssl then e = -0x6900 || e = -0x6880 else e = -11

/-- What `http_rsp_image` leaves; a return value of `none` stands for an access outside an
object. -/
structure RspResult where
  ret : Option ℤ
  dev : Dev

/-- The variables of the loop. -/
structure RspLoop (σ : Type) where
  offset : ℕ
  eraseStartAddr : ℕ
  /-- The `recv_len` bytes at `buf`; none when `recv_len` is not positive. -/
  buf : List UInt8
  dev : Dev
  sock : σ

/-- `new_img_addr` and `img_size`. -/
def newImg (runningIdx : ℕ) : ℕ × ℕ :=
  if runningIdx = 0 then (reImg1Offset, reImg1End - reImg1Offset)
  else (reImg0Offset, reImg1Offset - reImg0Offset)

/-! ### Receiving the image -/

section Receive

variable (rom : Rom)

/-- `while (offset + new_img_addr + recv_len > erase_start_addr)`, with the return code and the
address reached. -/
def eraseTo (limit a : ℕ) (d : Dev) : ℤ × ℕ × Dev :=
  if a < limit then
    if _h : (rawFlashErase rom a eraseSize d).1 ≠ 0 then
      ((rawFlashErase rom a eraseSize d).1, a, (rawFlashErase rom a eraseSize d).2)
    else eraseTo limit (u32 (a + eraseSize)) (rawFlashErase rom a eraseSize d).2
  else (0, a, d)
termination_by 2 * flashTotalSize - a
decreasing_by exact eraseAhead_decreasing _h

variable {σ : Type} (t : Transport σ) (ssl : Bool) (slot : ℕ × ℕ) (bodyLen : ℤ)

/-- `if (recv_len > 0)`: erase ahead and write what was received. The first result is `ret`. -/
def storeReceived (l : RspLoop σ) : ℤ × RspLoop σ :=
  if l.buf = [] then (0, l)
  else if slot.2 < l.offset + l.buf.length then (-6, l)
  else
    let e := eraseTo rom (l.offset + slot.1 + l.buf.length) l.eraseStartAddr l.dev
    if e.1 ≠ 0 then (e.1, { l with eraseStartAddr := e.2.1, dev := e.2.2 })
    else
      let w := rawFlashWrite rom (slot.1 + l.offset) l.buf e.2.2
      (w.1,
        { l with
          offset := if w.1 ≠ 0 then l.offset else l.offset + l.buf.length
          eraseStartAddr := e.2.1
          dev := w.2 })

/-- The rest of a pass: leave when all has come, and receive more otherwise. -/
def receiveNext (l : RspLoop σ) : RspLoop σ ⊕ RspResult :=
  let recvLen := bodyLen - l.offset
  if recvLen = 0 then .inr ⟨some 0, l.dev⟩
  else
    let r := t.recv (sizeT (min recvLen recbufferLen)) l.sock
    let again (buf : List UInt8) : RspLoop σ ⊕ RspResult :=
      if (l.offset : ℤ) < bodyLen then .inl { l with buf := buf, sock := r.2 }
      else .inr ⟨some 0, l.dev⟩
    match r.1 with
    | .error e => if retryable ssl e then again [] else .inr ⟨some (-7), l.dev⟩
    | .ok bytes => if recbufferLen < bytes.length then .inr ⟨none, l.dev⟩ else again bytes

/-- One pass of the loop of `http_rsp_image`. -/
def rspBody (l : RspLoop σ) : RspLoop σ ⊕ RspResult :=
  let s := storeReceived rom slot l
  if s.1 ≠ 0 then .inr ⟨some s.1, s.2.dev⟩ else receiveNext t ssl bodyLen s.2

/-- The receive buffer, cleared at first, after the first receive. -/
def recvbufOf (first : List UInt8) : List UInt8 :=
  first ++ List.replicate (recbufferLen - first.length) 0

/-- `http_rsp_image`, with at most `passes` passes of the loop. -/
def httpRspImage (mallocOk : Bool) (runningIdx passes : ℕ) (d : Dev) (sock : σ) :
    Option RspResult :=
  if mallocOk = false then some ⟨some (-1), d⟩
  else
    let r := t.recv recbufferLen sock
    match r.1 with
    | .error _ => some ⟨some (-2), d⟩
    | .ok first =>
      if first = [] then some ⟨some (-2), d⟩
      else
        match httpRspCode (recvbufOf first) with
        | none => some ⟨none, d⟩
        | some code =>
          if code ≠ 200 then some ⟨some (-3), d⟩
          else
            let slot := newImg runningIdx
            match httpHdrLen (recvbufOf first), httpBodyLen (recvbufOf first) with
            | some hdrLen, some bodyLen =>
              if slot.2 < sizeT bodyLen then some ⟨some (-4), d⟩
              else if first.length < hdrLen then some ⟨some (-5), d⟩
              else
                runFor (rspBody rom t ssl slot bodyLen) passes
                  ⟨0, slot.1, first.drop hdrLen, d, r.2⟩
            | _, _ => some ⟨none, d⟩

/-- What `ota_demo_task` is told: the running image by `rom_sys_status_get`, and the results of
`http_socket_init` and `http_req_image`. -/
structure OtaDemoEnv where
  /-- The index of the running image, unless the ROM fails. -/
  runningIdx : Option ℕ
  sockfd : ℤ
  req : ℤ

/-- `ota_demo_task`: the flag writes it issues and the flash it leaves. They are the ones of
`tkl_ota_end_notify`, and what happens after an access outside an object is not said. -/
def otaDemoTask (mallocOk : Bool) (env : OtaDemoEnv) (passes : ℕ) (d : Dev) (sock : σ) :
    Option (List FlagCall × Dev) :=
  match env.runningIdx with
  | none => some ([], d)
  | some idx =>
    if env.sockfd < 0 ∨ env.req ≠ 0 then some ([], d)
    else
      (httpRspImage rom t ssl mallocOk idx passes d sock).bind fun r =>
        r.ret.map fun res => (if res < 0 then [] else endFlagCalls idx, r.dev)

end Receive

/-! ### What has been written -/

/-- **The programs among a list of flash calls put `w` at `a`**, one behind the other. -/
def Stores : ℕ → List Prim → List UInt8 → Prop
  | _, [], w => w = []
  | a, .erase _ _ :: ps, w => Stores a ps w
  | a, .program b data :: ps, w => b = a ∧ ∃ v, w = data ++ v ∧ Stores (a + data.length) ps v

theorem Stores.append {a : ℕ} {ps qs : List Prim} {w v : List UInt8} (h : Stores a ps w)
    (h' : Stores (a + w.length) qs v) : Stores a (ps ++ qs) (w ++ v) := by
  induction ps generalizing a w with
  | nil =>
    rw [show w = [] from h] at h' ⊢
    exact h'
  | cons p ps ih =>
    cases p with
    | erase b n => exact ih (w := w) h h'
    | program b data =>
      obtain ⟨rfl, u, rfl, hu⟩ := h
      refine ⟨rfl, u ++ v, append_assoc _ _ _, ih hu ?_⟩
      rwa [length_append, ← add_assoc] at h'

/-- A flash with `w` written from the start of the slot, all of it since `d₀`, and blank from there
to the erase frontier. -/
structure Written (slot : ℕ × ℕ) (d₀ : Dev) (w : List UInt8) (a : ℕ) (d : Dev) : Prop where
  room : w.length ≤ slot.2
  covered : slot.1 + w.length ≤ a
  high : a ≤ slot.1 + slot.2
  aligned : eraseSize ∣ slot.1 + slot.2 - a
  blank : Blank d.flash (slot.1 + w.length) (a - (slot.1 + w.length))
  read : read d.flash slot.1 w.length = w
  calls : ∃ ps, d.log = d₀.log ++ ps ∧ (∀ p ∈ ps, p.Within slot.1 (slot.1 + slot.2)) ∧
    Stores slot.1 ps w

theorem slotOk_newImg (runningIdx : ℕ) : SlotOk (newImg runningIdx) := by
  rw [newImg]
  split <;> exact ⟨by decide, by decide⟩

section Written

variable {rom : Rom} {slot : ℕ × ℕ} {d₀ : Dev} {w : List UInt8}

/-- The start. -/
theorem Written.start (hs : SlotOk slot) (d : Dev) : Written slot d [] slot.1 d where
  room := Nat.zero_le _
  covered := Nat.le_refl _
  high := Nat.le_add_right _ _
  aligned := by
    rw [Nat.add_sub_cancel_left]
    exact hs.sectors
  blank := fun x h1 h2 => by
    omega
  read := rfl
  calls := ⟨[], by simp, by simp, rfl⟩

/-- **The erase loop** moves the frontier to `limit` or beyond. -/
theorem Written.eraseTo {a : ℕ} {d : Dev} (hr : rom.Reliable) (hs : SlotOk slot) {limit : ℕ}
    (hlim : limit ≤ slot.1 + slot.2) (h : Written slot d₀ w a d) :
    ∃ b d', eraseTo rom limit a d = (0, b, d') ∧ limit ≤ b ∧ Written slot d₀ w b d' := by
  have hdev := hs.onDevice
  have hmax : flashTotalSize < 2 ^ 32 := by decide
  rw [App.eraseTo]
  by_cases hlt : a < limit
  swap
  · rw [if_neg hlt]
    exact ⟨a, d, rfl, by omega, h⟩
  have hcov := h.covered
  have hroom : a + eraseSize ≤ slot.1 + slot.2 := by
    obtain ⟨k, hk⟩ := h.aligned
    rcases k with _ | k
    · omega
    · rw [Nat.mul_succ] at hk
      omega
  have he := hr.rawFlashErase_eq a (show 0 < eraseSize by decide) (by decide)
    (by omega) d
  rw [if_pos hlt, dif_neg (by rw [he]; simp), he, u32_of_lt (by omega)]
  have hnext : Written slot d₀ w (a + eraseSize)
      ⟨erase d.flash a eraseSize, d.log ++ [.erase a eraseSize]⟩ := by
    refine ⟨h.room, by omega, hroom, ?_, fun x h1 h2 => ?_, ?_, ?_⟩
    · rw [← Nat.sub_sub]
      exact Nat.dvd_sub h.aligned dvd_rfl
    · rcases lt_or_ge x a with hx | hx
      · exact (erase_of_disjoint (Or.inl hx)).trans (h.blank x h1 (by omega))
      · exact blank_erase _ _ _ x hx (by omega)
    · exact (read_erase_of_disjoint (Or.inl hcov)).trans h.read
    · obtain ⟨ps, hlog, hin, hps⟩ := h.calls
      refine ⟨ps ++ [.erase a eraseSize], by rw [hlog, append_assoc], fun p hp => ?_, ?_⟩
      · rcases mem_append.mp hp with hp | hp
        · exact hin p hp
        · rw [mem_singleton.mp hp]
          exact ⟨by simp only [Prim.addr]; omega, hroom⟩
      · have := hps.append (show Stores (slot.1 + w.length) [.erase a eraseSize] [] from rfl)
        rwa [append_nil] at this
  exact Written.eraseTo hr hs hlim hnext
termination_by 2 * flashTotalSize - a
decreasing_by
  simp only [eraseSize, flashPageSize] at *
  omega

/-- **A write** behind what has been written. -/
theorem Written.write {a : ℕ} {d : Dev} (hr : rom.Reliable) (hs : SlotOk slot)
    {data : List UInt8} (hne : data ≠ []) (hcov : slot.1 + w.length + data.length ≤ a)
    (h : Written slot d₀ w a d) :
    ∃ d', rawFlashWrite rom (slot.1 + w.length) data d = (0, d') ∧
      Written slot d₀ (w ++ data) a d' := by
  have hdev := hs.onDevice
  have hmax : flashTotalSize < 2 ^ 31 := by decide
  have hhigh := h.high
  have hlen : 0 < data.length := length_pos_of_ne_nil hne
  refine ⟨_, hr.rawFlashWrite_eq hlen (by omega) (by omega) d, ?_⟩
  obtain ⟨ps, hlog, hin, hps⟩ := h.calls
  constructor
  · rw [length_append]
    omega
  · rw [length_append]
    omega
  · exact hhigh
  · exact h.aligned
  · rw [length_append]
    refine Blank.program_of_disjoint (h.blank.mono (by omega) ?_) (Or.inr (by omega))
    omega
  · rw [length_append, read_add, read_program_of_disjoint (Or.inl (Nat.le_refl _)), h.read,
      read_program_of_blank (h.blank.mono (Nat.le_refl _) (by omega))]
  · refine ⟨ps ++ [.program (slot.1 + w.length) data], by rw [hlog, append_assoc],
      fun p hp => ?_, hps.append ?_⟩
    swap
    · exact And.intro rfl ⟨[], (append_nil data).symm, rfl⟩
    rcases mem_append.mp hp with hp | hp
    · exact hin p hp
    · rw [mem_singleton.mp hp]
      exact ⟨by simp only [Prim.addr]; omega, by simp only [Prim.addr, Prim.size]; omega⟩

end Written

/-! ### A response that comes in pieces -/

/-- A response on its way: the bytes still to come, and for every receive to come how many more
bytes than one it delivers at most. -/
structure Stream where
  rest : List UInt8
  cuts : ℕ → ℕ

/-- A receive takes a piece off the front, one that is not empty unless nothing is left. -/
def Stream.recv (len : ℕ) (s : Stream) : List UInt8 × Stream :=
  (s.rest.take (min (s.cuts 0 + 1) len),
    ⟨s.rest.drop (min (s.cuts 0 + 1) len), fun i => s.cuts (i + 1)⟩)

/-- The connection on which the response comes. -/
def streamTransport : Transport Stream where
  recv len s := (.ok (s.recv len).1, (s.recv len).2)

theorem Stream.recv_append (len : ℕ) (s : Stream) :
    (s.recv len).1 ++ (s.recv len).2.rest = s.rest := take_append_drop _ _

theorem Stream.length_recv (len : ℕ) (s : Stream) :
    (s.recv len).1.length = min (min (s.cuts 0 + 1) len) s.rest.length := length_take

section Pass

variable {rom : Rom} {slot : ℕ × ℕ} {d₀ : Dev} {w : List UInt8} {σ : Type}

/-- **What is received is written** when it fits the slot. -/
theorem storeReceived_spec (hr : rom.Reliable) (hs : SlotOk slot) {l : RspLoop σ}
    (h : Written slot d₀ w l.eraseStartAddr l.dev) (hoff : l.offset = w.length)
    (hfit : w.length + l.buf.length ≤ slot.2) :
    ∃ a d, storeReceived rom slot l = (0, ⟨(w ++ l.buf).length, a, l.buf, d, l.sock⟩) ∧
      Written slot d₀ (w ++ l.buf) a d := by
  rw [storeReceived]
  by_cases hnil : l.buf = []
  · rw [if_pos hnil, hnil, append_nil, ← hoff]
    refine ⟨l.eraseStartAddr, l.dev, ?_, h⟩
    rw [← hnil]
  rw [if_neg hnil, if_neg (by omega)]
  obtain ⟨b, d, herase, hlim, hd⟩ := h.eraseTo hr hs
    (show w.length + slot.1 + l.buf.length ≤ slot.1 + slot.2 by omega)
  obtain ⟨d', hwrite, hd'⟩ := hd.write hr hs hnil (by omega)
  refine ⟨b, d', ?_, hd'⟩
  simp only [hoff, herase, ne_eq, not_true_eq_false, if_false, hwrite, length_append]

variable {ssl : Bool} {bodyLen : ℕ} {tail : List UInt8}

/-- What a loop that has not got too much yet keeps: what has been written, the buffer and what is
still to come are the response from the end of its header on. -/
structure Receiving (slot : ℕ × ℕ) (d₀ : Dev) (bodyLen : ℕ) (tail w : List UInt8)
    (l : RspLoop Stream) : Prop where
  written : Written slot d₀ w l.eraseStartAddr l.dev
  offset : l.offset = w.length
  stream : w ++ l.buf ++ l.sock.rest = tail
  bound : w.length + l.buf.length ≤ bodyLen

/-- **One pass** leaves when all has come, and otherwise goes on with the next piece. -/
theorem rspBody_spec (hr : rom.Reliable) (hs : SlotOk slot) (hlen : bodyLen ≤ slot.2)
    {l : RspLoop Stream} (h : Receiving slot d₀ bodyLen tail w l) :
    (∃ a d, rspBody rom streamTransport ssl slot bodyLen l = .inr ⟨some 0, d⟩ ∧
      w ++ l.buf = tail.take bodyLen ∧ bodyLen ≤ tail.length ∧ Written slot d₀ (w ++ l.buf) a d) ∨
    (w ++ l.buf).length < bodyLen ∧
      ∃ l', rspBody rom streamTransport ssl slot bodyLen l = .inl l' ∧
        Receiving slot d₀ bodyLen tail (w ++ l.buf) l' ∧
        (l.sock.rest ≠ [] → l'.sock.rest.length < l.sock.rest.length) := by
  obtain ⟨a, d, hstore, hd⟩ := storeReceived_spec hr hs h.written h.offset (by
    have := h.bound
    omega)
  have hbound : (w ++ l.buf).length ≤ bodyLen := by
    rw [length_append]
    exact h.bound
  simp only [rspBody, hstore, ne_eq, not_true_eq_false, if_false, receiveNext]
  rcases eq_or_lt_of_le hbound with heq | hlt
  · -- all has come
    refine Or.inl ⟨a, d, by rw [if_pos (by omega)], ?_, ?_, hd⟩
    · rw [← h.stream, ← heq, take_left]
    · rw [← h.stream, length_append]
      omega
  · refine Or.inr ⟨hlt, ?_⟩
    rw [if_neg (by omega)]
    -- the length asked for is positive
    obtain ⟨m, hm⟩ : ∃ m, sizeT (min ((bodyLen : ℤ) - ((w ++ l.buf).length : ℕ))
      recbufferLen) = m := ⟨_, rfl⟩
    have hmval : m = min (bodyLen - (w ++ l.buf).length) recbufferLen := by
      have hrec : recbufferLen = 1516 := rfl
      rw [← hm, sizeT]
      omega
    have hrec : 0 < recbufferLen := by decide
    have hpiece := Stream.length_recv m l.sock
    simp only [hm, streamTransport]
    rw [if_neg (by omega), if_pos (by omega)]
    refine ⟨_, rfl, ⟨hd, rfl, ?_, ?_⟩, fun hne => ?_⟩
    · show w ++ l.buf ++ (l.sock.recv m).1 ++ (l.sock.recv m).2.rest = tail
      rw [append_assoc, Stream.recv_append, h.stream]
    · show (w ++ l.buf).length + (l.sock.recv m).1.length ≤ bodyLen
      omega
    · show (l.sock.recv m).2.rest.length < l.sock.rest.length
      have hpos : 0 < l.sock.rest.length := length_pos_of_ne_nil hne
      have := congrArg List.length (Stream.recv_append m l.sock)
      rw [length_append] at this
      omega

/-- **A body that comes in full** is written in full. -/
theorem runFor_of_enough (hr : rom.Reliable) (hs : SlotOk slot) (hlen : bodyLen ≤ slot.2)
    (henough : bodyLen ≤ tail.length) {l : RspLoop Stream}
    (h : Receiving slot d₀ bodyLen tail w l) :
    ∃ n r, runFor (rspBody rom streamTransport ssl slot bodyLen) n l = some r ∧
      r.ret = some 0 ∧ ∃ a, Written slot d₀ (tail.take bodyLen) a r.dev := by
  refine exists_runFor (P := fun u => ∃ w, Receiving slot d₀ bodyLen tail w u)
    (fun u => u.sock.rest.length) ?_ ⟨w, h⟩
  rintro u ⟨v, hu⟩
  rcases rspBody_spec hr hs hlen hu with ⟨a, d, hbody, heq, -, hd⟩ |
    ⟨hlt, u', hbody, hu', hdec⟩
  · exact Or.inl ⟨_, hbody, rfl, a, heq ▸ hd⟩
  · refine Or.inr ⟨u', hbody, ⟨_, hu'⟩, hdec fun hnil => ?_⟩
    have := hu.stream
    rw [hnil, append_nil] at this
    rw [← this] at henough
    omega

/-- **A body that comes up short** is waited for without end. -/
theorem runFor_of_short (hr : rom.Reliable) (hs : SlotOk slot) (hlen : bodyLen ≤ slot.2)
    (hshort : tail.length < bodyLen) {l : RspLoop Stream}
    (h : Receiving slot d₀ bodyLen tail w l) (n : ℕ) :
    runFor (rspBody rom streamTransport ssl slot bodyLen) n l = none := by
  refine runFor_of_stuck (P := fun u => ∃ w, Receiving slot d₀ bodyLen tail w u) ?_ ⟨w, h⟩ n
  rintro u ⟨v, hu⟩
  rcases rspBody_spec hr hs hlen hu with ⟨a, d, hbody, -, hle, -⟩ |
    ⟨-, u', hbody, hu', -⟩
  · omega
  · exact ⟨u', hbody, _, hu'⟩

/-- **When more than the body has come with the header** the loop asks for a negative number of
bytes, and leaves when they fit the buffer. -/
theorem rspBody_of_excess (bodyLen : ℕ) (hr : rom.Reliable) (hs : SlotOk slot)
    {l : RspLoop Stream}
    (h : Written slot d₀ w l.eraseStartAddr l.dev) (hoff : l.offset = w.length)
    (hfit : w.length + l.buf.length ≤ slot.2) (hex : bodyLen < w.length + l.buf.length) :
    ∃ a d, Written slot d₀ (w ++ l.buf) a d ∧
      rspBody rom streamTransport ssl slot bodyLen l =
        .inr ⟨if recbufferLen < (l.sock.recv (sizeT ((bodyLen : ℤ) -
          (w.length + l.buf.length : ℕ)))).1.length then none else some 0, d⟩ := by
  obtain ⟨a, d, hstore, hd⟩ := storeReceived_spec hr hs h hoff hfit
  refine ⟨a, d, hd, ?_⟩
  rw [← length_append] at hex ⊢
  simp only [rspBody, hstore, ne_eq, not_true_eq_false, if_false, receiveNext]
  rw [if_neg (by omega), Int.min_eq_left (by omega)]
  simp only [streamTransport]
  split
  · rfl
  · rw [if_neg (by omega)]

end Pass

/-! ### When the download is right -/

/-- The slot holds the body that the response announces, and nothing else has been written. -/
def Complete (response : List UInt8) (slot : ℕ × ℕ) (d d' : Dev) : Prop :=
  ∃ n body ps, Announces response n body ∧ 1 ≤ n ∧ n ≤ body.length ∧ d'.log = d.log ++ ps ∧
    Stores slot.1 ps (body.take n) ∧ read d'.flash slot.1 n = body.take n

/-- **What a download promises**: `http_rsp_image` returns, it has written inside the inactive slot
only, and unless the slot holds the body that the response announces it does not return `0` and
`ota_demo_task` does not mark the slot. -/
def Downloads (rom : Rom) (ssl mallocOk : Bool) (runningIdx : ℕ) (d : Dev) (s : Stream) : Prop :=
  ∃ passes code d',
    httpRspImage rom streamTransport ssl mallocOk runningIdx passes d s = some ⟨some code, d'⟩ ∧
    Issues (newImg runningIdx).1 ((newImg runningIdx).1 + (newImg runningIdx).2) d d' ∧
    (code = 0 → Complete s.rest (newImg runningIdx) d d') ∧
    ∀ env marks d'', env.runningIdx = some runningIdx →
      otaDemoTask rom streamTransport ssl mallocOk env passes d s = some (marks, d'') →
      marks ≠ [] → Complete s.rest (newImg runningIdx) d d''

/-- What is read off the first receive is right, or fits: `h` is the length of the header and `L`
the length of the body read off the first receive, and `n` is what is written: `L` bytes, or as
many as came behind the header with the first receive if these are more. They are the body
announced, and the receive that follows fits the buffer even if it is asked for a negative number
of bytes. -/
def HeadRight (s : Stream) (h : ℕ) (L : ℤ) : Prop :=
  let r := ((s.recv recbufferLen).1.length - h : ℕ)
  ∃ n body, n = max r L.toNat ∧ Announces s.rest n body ∧ 1 ≤ n ∧ n ≤ body.length ∧
    (s.rest.drop h).take n = body.take n ∧
    (L < r → ((s.recv recbufferLen).2.recv (sizeT (L - r))).1.length ≤ recbufferLen)

/-- **The responses that are downloaded right**: there is no memory for the buffer, nothing is
received, the first receive is not read as a 200, the length read off it is too long for the slot,
or what is read off it is right. -/
def DownloadMeets (mallocOk : Bool) (runningIdx : ℕ) (s : Stream) : Prop :=
  let buf := recvbufOf (s.recv recbufferLen).1
  mallocOk = false ∨ (s.recv recbufferLen).1 = [] ∨
    ∃ code, httpRspCode buf = some code ∧
      (code ≠ 200 ∨ ∃ h L, httpHdrLen buf = some h ∧ httpBodyLen buf = some L ∧
        ((newImg runningIdx).2 < sizeT L ∨ HeadRight s h L))

section Claim

variable {rom : Rom} {ssl mallocOk : Bool} {idx : ℕ} {d : Dev} {s : Stream}

/-- The programs among a list of calls put one thing at a place. -/
theorem Stores.unique {a : ℕ} {ps : List Prim} {w v : List UInt8} (h : Stores a ps w)
    (h' : Stores a ps v) : w = v := by
  induction ps generalizing a w v with
  | nil => exact h.trans h'.symm
  | cons p ps ih =>
    cases p with
    | erase b n => exact ih (w := w) h h'
    | program b data =>
      obtain ⟨-, u, rfl, hu⟩ := h
      obtain ⟨-, u', rfl, hu'⟩ := h'
      rw [ih hu hu']

/-- A result keeps the promise when it is an error or the slot is complete. -/
theorem downloads_of_result {passes : ℕ} {code : ℤ} {d' : Dev}
    (hres : httpRspImage rom streamTransport ssl mallocOk idx passes d s = some ⟨some code, d'⟩)
    (hin : Issues (newImg idx).1 ((newImg idx).1 + (newImg idx).2) d d')
    (h : code < 0 ∨ Complete s.rest (newImg idx) d d') :
    Downloads rom ssl mallocOk idx d s := by
  refine ⟨passes, code, d', hres, hin, fun hzero => ?_, fun env marks d'' henv htask hne => ?_⟩
  · rcases h with h | h
    · omega
    · exact h
  · simp only [otaDemoTask, henv, hres, Option.bind_some, Option.map_some] at htask
    split at htask
    · cases htask
      exact absurd rfl hne
    · rcases h with h | h
      · rw [if_pos h] at htask
        cases htask
        exact absurd rfl hne
      · cases htask
        exact h

/-- An error before anything is written. -/
theorem downloads_of_error (code : ℤ) (hcode : code < 0)
    (hres : httpRspImage rom streamTransport ssl mallocOk idx 0 d s = some ⟨some code, d⟩) :
    Downloads rom ssl mallocOk idx d s :=
  downloads_of_result hres (.refl _ _ d) (Or.inl hcode)

/-- What has been written lies in the slot. -/
theorem Written.issues {slot : ℕ × ℕ} {d d' : Dev} {w : List UInt8} {a : ℕ}
    (h : Written slot d w a d') : Issues slot.1 (slot.1 + slot.2) d d' := by
  obtain ⟨ps, hlog, hin, -⟩ := h.calls
  exact ⟨ps, hlog, hin⟩

/-- **A slot is complete exactly when what has been written is the body announced.** -/
theorem Written.complete_iff {slot : ℕ × ℕ} {d d' : Dev} {w response : List UInt8} {a : ℕ}
    (h : Written slot d w a d') :
    Complete response slot d d' ↔ ∃ n body, n = w.length ∧ Announces response n body ∧ 1 ≤ n ∧
      n ≤ body.length ∧ w = body.take n := by
  obtain ⟨ps, hlog, -, hps⟩ := h.calls
  constructor
  · rintro ⟨n, body, qs, hann, hpos, hle, hlog', hqs, -⟩
    rw [hlog, append_cancel_left_eq] at hlog'
    subst hlog'
    have heq := hps.unique hqs
    refine ⟨n, body, ?_, hann, hpos, hle, heq⟩
    rw [heq, length_take]
    omega
  · rintro ⟨n, body, hn, hann, hpos, hle, heq⟩
    refine ⟨n, body, ps, hann, hpos, hle, hlog, heq ▸ hps, ?_⟩
    rw [hn, h.read, ← hn, heq]

end Claim

section Accepted

variable {rom : Rom} {ssl : Bool} {idx h : ℕ} {L : ℤ} {d : Dev} {s : Stream}

/-- A response whose head is accepted runs the loop. -/
theorem httpRspImage_of_accepted (hne : (s.recv recbufferLen).1 ≠ [])
    (hcode : httpRspCode (recvbufOf (s.recv recbufferLen).1) = some 200)
    (hh : httpHdrLen (recvbufOf (s.recv recbufferLen).1) = some h)
    (hL : httpBodyLen (recvbufOf (s.recv recbufferLen).1) = some L)
    (hfit : ¬(newImg idx).2 < sizeT L) (passes : ℕ) :
    httpRspImage rom streamTransport ssl true idx passes d s =
      runFor (rspBody rom streamTransport ssl (newImg idx) L) passes
        ⟨0, (newImg idx).1, (s.recv recbufferLen).1.drop h, d, (s.recv recbufferLen).2⟩ := by
  have hle : ¬(s.recv recbufferLen).1.length < h := not_lt.mpr (httpHdrLen_le hh)
  simp only [httpRspImage, streamTransport, Bool.true_eq_false, if_false, hne, hcode, ne_eq,
    not_true_eq_false, hh, hL, hfit, hle]

/-- The length read off the buffer is not negative when it fits the slot. -/
theorem nonneg_of_fit (hL : httpBodyLen (recvbufOf (s.recv recbufferLen).1) = some L)
    (hfit : ¬(newImg idx).2 < sizeT L) : L = L.toNat ∧ L.toNat ≤ (newImg idx).2 := by
  have hlt := natAbs_httpBodyLen_lt hL
  have hslot : (newImg idx).2 = 0x1E0000 := by
    rw [newImg]
    split <;> rfl
  rw [sizeT] at hfit
  omega

/-- **The download of a response whose head is accepted** is right exactly when what is read off
the head is. -/
theorem downloads_iff_headRight (hr : rom.Reliable) (hne : (s.recv recbufferLen).1 ≠ [])
    (hcode : httpRspCode (recvbufOf (s.recv recbufferLen).1) = some 200)
    (hh : httpHdrLen (recvbufOf (s.recv recbufferLen).1) = some h)
    (hL : httpBodyLen (recvbufOf (s.recv recbufferLen).1) = some L)
    (hfit : ¬(newImg idx).2 < sizeT L) :
    Downloads rom ssl true idx d s ↔ HeadRight s h L := by
  have hs := slotOk_newImg idx
  have hrun : ∀ passes, httpRspImage rom streamTransport ssl true idx passes d s = _ :=
    httpRspImage_of_accepted hne hcode hh hL hfit
  have hle := httpHdrLen_le hh
  obtain ⟨hnat, hroom⟩ := nonneg_of_fit hL hfit
  obtain ⟨bodyLen, hbody⟩ : ∃ n, L.toNat = n := ⟨_, rfl⟩
  obtain ⟨first, hfirst⟩ : ∃ f, (s.recv recbufferLen).1 = f := ⟨_, rfl⟩
  have htail : first.drop h ++ (s.recv recbufferLen).2.rest = s.rest.drop h := by
    rw [← Stream.recv_append recbufferLen s, hfirst, drop_append_of_le_length (hfirst ▸ hle)]
  have hlen : (first.drop h).length = first.length - h := length_drop
  have hstart := Written.start hs d
  rw [hbody] at hroom hnat
  simp only [HeadRight, hfirst, hbody]
  simp only [hfirst] at hrun
  rw [hnat] at hrun ⊢
  rcases lt_or_ge bodyLen (first.length - h) with hex | hle'
  · -- more than the body has come with the header
    obtain ⟨a, d', hd', hpass⟩ := rspBody_of_excess bodyLen
      (l := ⟨0, (newImg idx).1, first.drop h, d, (s.recv recbufferLen).2⟩) hr hs hstart rfl (by
        have : recbufferLen ≤ (newImg idx).2 := by
          rw [newImg]
          split <;> decide
        have := Stream.length_recv recbufferLen s
        rw [hfirst] at this
        simp only [length_nil, hlen]
        omega) (by
        simp only [length_nil, hlen]
        omega)
    simp only [length_nil, zero_add, hlen, nil_append] at hpass hd'
    have hone := (hrun 1).trans (runFor_of_inr hpass 0)
    have htake : (s.rest.drop h).take (first.length - h) = first.drop h := by
      rw [← htail, ← hlen, take_left]
    rw [max_eq_left (le_of_lt hex)]
    constructor
    · rintro ⟨passes, code, d'', hres, -, hzero, -⟩
      have := runFor_unique ((hrun passes).symm.trans hres) (runFor_of_inr hpass 0)
      split at this
      · cases this
      next hover =>
      cases this
      obtain ⟨n, body, hn, hann, hpos, hnb, heq⟩ := hd'.complete_iff.mp (hzero rfl)
      rw [hlen] at hn
      refine ⟨n, body, hn, hann, hpos, hnb, ?_, fun _ => not_lt.mp hover⟩
      rw [hn, htake, heq, hn]
    · rintro ⟨n, body, hn, hann, hpos, hnb, heq, hover⟩
      rw [if_neg (not_lt.mpr (hover (by omega)))] at hone
      refine downloads_of_result hone hd'.issues (Or.inr (hd'.complete_iff.mpr ?_))
      refine ⟨n, body, hn.trans hlen.symm, hann, hpos, hnb, ?_⟩
      rw [← heq, hn, htake]
  · rw [max_eq_right hle']
    have hrecv : Receiving (newImg idx) d bodyLen (s.rest.drop h) []
        ⟨0, (newImg idx).1, first.drop h, d, (s.recv recbufferLen).2⟩ :=
      ⟨hstart, rfl, htail, by simp only [length_nil, hlen]; omega⟩
    rcases lt_or_ge (s.rest.drop h).length bodyLen with hshort | henough
    · -- the body does not come in full
      constructor
      · rintro ⟨passes, code, d'', hres, -⟩
        rw [hrun, runFor_of_short hr hs hroom hshort hrecv] at hres
        cases hres
      · rintro ⟨n, body, rfl, -, -, hnb, heq, -⟩
        have := congrArg List.length heq
        rw [length_take, length_take] at this
        omega
    · obtain ⟨passes, ⟨ret, d'⟩, hpass, hret, a, hd'⟩ :=
        runFor_of_enough hr hs hroom henough hrecv
      cases hret
      have hlen' : ((s.rest.drop h).take bodyLen).length = bodyLen := by
        rw [length_take]
        omega
      constructor
      · rintro ⟨passes', code, d'', hres, -, hzero, -⟩
        cases runFor_unique ((hrun passes').symm.trans hres) hpass
        obtain ⟨n, body, hn, hann, hpos, hnb, heq⟩ := hd'.complete_iff.mp (hzero rfl)
        rw [hlen'] at hn
        refine ⟨n, body, hn, hann, hpos, hnb, ?_, fun hlt => by omega⟩
        rw [hn, heq, hn]
      · rintro ⟨n, body, hn, hann, hpos, hnb, heq, -⟩
        refine downloads_of_result ((hrun passes).trans hpass) hd'.issues
          (Or.inr (hd'.complete_iff.mpr ⟨n, body, hn.trans hlen'.symm, hann, hpos, hnb, ?_⟩))
        rw [← heq, hn]

end Accepted

/-- `"HTTP/1.1 200 OK"`, the line end with it. -/
def statusOk : List UInt8 := [72, 84, 84, 80, 47, 49, 46, 49, 32, 50, 48, 48, 32, 79, 75, 13, 10]

/-- A response without a length and without a body. -/
def lengthless : Stream := ⟨statusOk ++ [13, 10], fun _ => 1515⟩

/-- A response of five bytes, `"Content-Length: 5"`, that comes in one piece. -/
def fiveBytes : Stream :=
  ⟨statusOk ++ contentLength ++ [32, 53, 13, 10, 13, 10, 104, 101, 108, 108, 111], fun _ => 1515⟩

end Gd32.App
