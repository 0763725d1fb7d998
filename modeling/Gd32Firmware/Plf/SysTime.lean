import Gd32Firmware.Lib.Loop
import Mathlib.Data.Nat.ModEq

/-!
# Microseconds to seconds

`get_time` splits the counter of microseconds into seconds and the rest. The division is replaced by
three products, one for each group of digits of the counter: eight bits, eight bits and sixteen, the
last sixteen being below a second. Each product is truncated, so the seconds are too few and what is
left is a few seconds more than it should be, which a loop makes up for.

No second gets lost (`exists_getTime`), but the loop leaves a whole second of microseconds,
up to three passes are needed for the counter alone, and `get_time_us` has the microseconds of the epoch
in 32 bits. `timeExact_iff` says when none of these shows.
-/

namespace Gd32.SysTime

open UInt32

/-! ### The code -/

/-- `time_origin_t`. -/
inductive TimeOrigin where
  | sinceBoot
  | sinceEpoch

/-- The variables that `time_init` sets. -/
structure Epoch where
  sec : UInt32
  usec : UInt32

def timeInit (sec usec : UInt32) : Epoch := ⟨sec, usec⟩

/-- `get_sys_local_time_us`, with what `SysTimer_GetLoadValue` gives. -/
def getSysLocalTimeUs (clockUsFactor : UInt32) (mtime : UInt64) : UInt64 :=
  mtime / clockUsFactor.toUInt64

def fact : UInt32 := 0x8637bd

/-- The seconds before the loop, of the two halves of the counter. -/
def seconds (msb lsb : UInt32) : UInt32 :=
  (((msb >>> 8) * fact) >>> 3) + (((msb &&& 0xff) * fact) >>> 11) +
    (((lsb >>> 16) * (fact >>> 8)) >>> 19)

/-- The body of the loop, on `_sec` and `_usec`. -/
def secondBody (s : UInt32 × UInt32) : UInt32 × UInt32 ⊕ UInt32 × UInt32 :=
  if 1000000 < s.2 then .inl (s.1 + 1, s.2 - 1000000) else .inr s

/-- `_sec` and `_usec` before the loop. -/
def beforeLoop (e : Epoch) (origin : TimeOrigin) (ts : UInt64) : UInt32 × UInt32 :=
  let msb := (ts >>> 32 &&& 0xffffffff).toUInt32
  let lsb := (ts &&& 0xffffffff).toUInt32
  let sec := seconds msb lsb
  let usec := lsb - sec * 1000000
  match origin with
  | .sinceBoot => (sec, usec)
  | .sinceEpoch => (sec + e.sec, usec + e.usec)

/-- `get_time`, up to a number of times that the condition of its loop is looked at. -/
def getTime (looks : ℕ) (e : Epoch) (origin : TimeOrigin) (ts : UInt64) : Option (UInt32 × UInt32) :=
  Loop.runFor secondBody looks (beforeLoop e origin ts)

def getTimeUs (e : Epoch) (origin : TimeOrigin) (ts : UInt64) : UInt64 :=
  match origin with
  | .sinceBoot => ts
  | .sinceEpoch => ts + e.usec.toUInt64 + (e.sec * 1000000).toUInt64

/-! ### What is to be so -/

/-- The seconds of the origin. -/
def Epoch.secOf (e : Epoch) : TimeOrigin → ℕ
  | .sinceBoot => 0
  | .sinceEpoch => e.sec.toNat

/-- The microseconds of the origin. -/
def Epoch.usecOf (e : Epoch) : TimeOrigin → ℕ
  | .sinceBoot => 0
  | .sinceEpoch => e.usec.toNat

/-- The microseconds from the origin on. -/
def instant (e : Epoch) (origin : TimeOrigin) (ts : UInt64) : ℕ :=
  ts.toNat + e.usecOf origin + 1000000 * e.secOf origin

/-- **The conversion is exact**: after at most two passes the loop leaves seconds and less than a
second of microseconds, which are those from the origin on, and `get_time_us` says the same. -/
def TimeExact (e : Epoch) (origin : TimeOrigin) (ts : UInt64) : Prop :=
  ∃ sec usec : UInt32, getTime 3 e origin ts = some (sec, usec) ∧ usec.toNat < 1000000 ∧
    1000000 * sec.toNat + usec.toNat = instant e origin ts ∧
    (getTimeUs e origin ts).toNat = 1000000 * sec.toNat + usec.toNat

/-- What a truncated product leaves of a digit of the counter. -/
def missed (unit digit factor shift : ℕ) : ℕ :=
  unit * digit - 1000000 * (digit * factor / 2 ^ shift)

/-- What the three products leave of a counter below `2 ^ 48`, with the digits below a second. -/
def leftOver (t : ℕ) : ℕ :=
  missed (2 ^ 40) (t / 2 ^ 40) 0x8637bd 3 + missed (2 ^ 32) (t / 2 ^ 32 % 2 ^ 8) 0x8637bd 11 +
    missed (2 ^ 16) (t / 2 ^ 16 % 2 ^ 16) 0x8637 19 + t % 2 ^ 16

/-- What the conversion can do: what is left is not above three seconds, it is not a whole number of
seconds, and those of the epoch have their microseconds in 32 bits. -/
structure Convertible (e : Epoch) (origin : TimeOrigin) (ts : UInt64) : Prop where
  short : leftOver ts.toNat + e.usecOf origin ≤ 3000000
  notWhole : ts.toNat + e.usecOf origin ≠ 0 → ¬ 1000000 ∣ ts.toNat + e.usecOf origin
  /-- The product with the seconds of the epoch does not wrap. -/
  epoch : e.secOf origin < 4295

/-! ### The three products -/

section Missed

variable {unit factor shift : ℕ}

/-- A product with a factor that is too small takes no more than there is. -/
theorem missed_add (h : 1000000 * factor ≤ unit * 2 ^ shift) (digit : ℕ) :
    1000000 * (digit * factor / 2 ^ shift) + missed unit digit factor shift = unit * digit := by
  refine Nat.add_sub_cancel' (Nat.le_of_mul_le_mul_right ?_ (Nat.two_pow_pos shift))
  calc 1000000 * (digit * factor / 2 ^ shift) * 2 ^ shift
      = 1000000 * (digit * factor / 2 ^ shift * 2 ^ shift) := Nat.mul_assoc _ _ _
    _ ≤ 1000000 * (digit * factor) := Nat.mul_le_mul_left _ (Nat.div_mul_le_self _ _)
    _ = 1000000 * factor * digit := by rw [Nat.mul_comm digit, Nat.mul_assoc]
    _ ≤ unit * 2 ^ shift * digit := Nat.mul_le_mul_right _ h
    _ = unit * digit * 2 ^ shift := Nat.mul_right_comm _ _ _

/-- It leaves something of every digit but 0. -/
theorem eq_zero_of_missed (h : 1000000 * factor < unit * 2 ^ shift) {digit : ℕ}
    (hzero : missed unit digit factor shift = 0) : digit = 0 := by
  have hadd := missed_add h.le digit
  rw [hzero, Nat.add_zero] at hadd
  have hle : unit * 2 ^ shift * digit ≤ 1000000 * factor * digit :=
    calc unit * 2 ^ shift * digit = unit * digit * 2 ^ shift := Nat.mul_right_comm _ _ _
      _ = 1000000 * (digit * factor / 2 ^ shift * 2 ^ shift) := by rw [← hadd, Nat.mul_assoc]
      _ ≤ 1000000 * (digit * factor) := Nat.mul_le_mul_left _ (Nat.div_mul_le_self _ _)
      _ = 1000000 * factor * digit := by rw [Nat.mul_comm digit, Nat.mul_assoc]
  by_contra hne
  exact absurd (Nat.le_of_mul_le_mul_right hle (Nat.pos_of_ne_zero hne)) (Nat.not_le_of_lt h)

end Missed

theorem missed_high {a : ℕ} (ha : a < 2 ^ 8) : missed (2 ^ 40) a 0x8637bd 3 < 1600000 := by
  have hadd := @missed_add (2 ^ 40) 0x8637bd 3 (by omega) a
  omega

theorem missed_mid {a : ℕ} (ha : a < 2 ^ 8) : missed (2 ^ 32) a 0x8637bd 11 < 1010000 := by
  have hadd := @missed_add (2 ^ 32) 0x8637bd 11 (by omega) a
  omega

theorem missed_low {a : ℕ} (ha : a < 2 ^ 16) : missed (2 ^ 16) a 0x8637 19 < 1100000 := by
  have hadd := @missed_add (2 ^ 16) 0x8637 19 (by omega) a
  omega

/-- The seconds of the three products, of a counter below `2 ^ 48`. -/
def productSeconds (t : ℕ) : ℕ :=
  t / 2 ^ 40 * 0x8637bd / 2 ^ 3 + t / 2 ^ 32 % 2 ^ 8 * 0x8637bd / 2 ^ 11 +
    t / 2 ^ 16 % 2 ^ 16 * 0x8637 / 2 ^ 19

section Digits

variable {t : ℕ}

/-- Nothing gets lost. -/
theorem productSeconds_add (t : ℕ) : 1000000 * productSeconds t + leftOver t = t := by
  have hdigits : 2 ^ 40 * (t / 2 ^ 40) + 2 ^ 32 * (t / 2 ^ 32 % 2 ^ 8) +
      2 ^ 16 * (t / 2 ^ 16 % 2 ^ 16) + t % 2 ^ 16 = t := by omega
  have hhigh := @missed_add (2 ^ 40) 0x8637bd 3 (by omega) (t / 2 ^ 40)
  have hmid := @missed_add (2 ^ 32) 0x8637bd 11 (by omega) (t / 2 ^ 32 % 2 ^ 8)
  have hlow := @missed_add (2 ^ 16) 0x8637 19 (by omega) (t / 2 ^ 16 % 2 ^ 16)
  calc 1000000 * productSeconds t + leftOver t
      = (1000000 * (t / 2 ^ 40 * 0x8637bd / 2 ^ 3) + missed (2 ^ 40) (t / 2 ^ 40) 0x8637bd 3) +
        (1000000 * (t / 2 ^ 32 % 2 ^ 8 * 0x8637bd / 2 ^ 11) +
          missed (2 ^ 32) (t / 2 ^ 32 % 2 ^ 8) 0x8637bd 11) +
        (1000000 * (t / 2 ^ 16 % 2 ^ 16 * 0x8637 / 2 ^ 19) +
          missed (2 ^ 16) (t / 2 ^ 16 % 2 ^ 16) 0x8637 19) + t % 2 ^ 16 := by
        rw [productSeconds, leftOver, Nat.mul_add, Nat.mul_add]
        ac_rfl
    _ = t := by rw [hhigh, hmid, hlow, hdigits]

/-- What is left is less than four seconds. -/
theorem leftOver_lt (ht : t < 2 ^ 48) : leftOver t < 4000000 := by
  have hhigh := @missed_high (t / 2 ^ 40) (by omega)
  have hmid := @missed_mid (t / 2 ^ 32 % 2 ^ 8) (Nat.mod_lt _ (by omega))
  have hlow := @missed_low (t / 2 ^ 16 % 2 ^ 16) (Nat.mod_lt _ (by omega))
  rw [leftOver]
  omega

/-- Nothing is left of nothing only. -/
theorem eq_zero_of_leftOver (h : leftOver t = 0) : t = 0 := by
  simp only [leftOver, Nat.add_eq_zero_iff] at h
  have hhigh := @eq_zero_of_missed (2 ^ 40) 0x8637bd 3 (by omega) _ h.1.1.1
  have hmid := @eq_zero_of_missed (2 ^ 32) 0x8637bd 11 (by omega) _ h.1.1.2
  have hlow := @eq_zero_of_missed (2 ^ 16) 0x8637 19 (by omega) _ h.1.2
  omega

end Digits

/-! ### The seconds before the loop -/

section BeforeLoop

variable {e : Epoch} {origin : TimeOrigin} {ts : UInt64}

/-- The halves of the counter. -/
theorem toNat_msb (ht : ts.toNat < 2 ^ 48) :
    (ts >>> 32 &&& 0xffffffff).toUInt32.toNat = ts.toNat / 2 ^ 32 := by
  have hmask : UInt64.toNat 0xffffffff = 2 ^ 32 - 1 := rfl
  have hshift : UInt64.toNat 32 = 32 := rfl
  rw [UInt64.toNat_toUInt32, UInt64.toNat_and, UInt64.toNat_shiftRight, hmask, hshift,
    Nat.and_two_pow_sub_one_eq_mod, Nat.shiftRight_eq_div_pow]
  simp only [Nat.reduceMod]
  omega

theorem toNat_lsb : (ts &&& 0xffffffff).toUInt32.toNat = ts.toNat % 2 ^ 32 := by
  have hmask : UInt64.toNat 0xffffffff = 2 ^ 32 - 1 := rfl
  rw [UInt64.toNat_toUInt32, UInt64.toNat_and, hmask, Nat.and_two_pow_sub_one_eq_mod]
  omega

/-- Their sum does not wrap. -/
theorem add_mod_of_lt {a b c : ℕ} (ha : a < 2 ^ 30) (hb : b < 2 ^ 30) (hc : c < 2 ^ 30) :
    ((a + b) % 2 ^ 32 + c) % 2 ^ 32 = a + b + c := by
  rw [Nat.mod_eq_of_lt (show a + b < 2 ^ 32 by omega)]
  exact Nat.mod_eq_of_lt (by omega)

/-- The three products do not wrap. -/
theorem toNat_seconds (ht : ts.toNat < 2 ^ 48) :
    (seconds (ts >>> 32 &&& 0xffffffff).toUInt32 (ts &&& 0xffffffff).toUInt32).toNat =
      productSeconds ts.toNat := by
  have hfact : fact.toNat = 0x8637bd := rfl
  have hfact' : (fact >>> 8).toNat = 0x8637 := rfl
  have hmask : UInt32.toNat 0xff = 2 ^ 8 - 1 := rfl
  have h3 : UInt32.toNat 3 = 3 := rfl
  have h8 : UInt32.toNat 8 = 8 := rfl
  have h11 : UInt32.toNat 11 = 11 := rfl
  have h16 : UInt32.toNat 16 = 16 := rfl
  have h19 : UInt32.toNat 19 = 19 := rfl
  have hhigh : ts.toNat / 2 ^ 32 / 2 ^ 8 = ts.toNat / 2 ^ 40 := by omega
  have hlow : ts.toNat % 2 ^ 32 / 2 ^ 16 = ts.toNat / 2 ^ 16 % 2 ^ 16 := by omega
  have hmid : ts.toNat / 2 ^ 32 % 2 ^ 8 < 2 ^ 8 := Nat.mod_lt _ (by omega)
  rw [seconds, UInt32.toNat_add, UInt32.toNat_add, UInt32.toNat_shiftRight,
    UInt32.toNat_shiftRight, UInt32.toNat_shiftRight, UInt32.toNat_mul, UInt32.toNat_mul,
    UInt32.toNat_mul, UInt32.toNat_shiftRight, UInt32.toNat_and, UInt32.toNat_shiftRight,
    toNat_msb ht, toNat_lsb, hfact, hfact', hmask, h3, h8, h11, h16, h19,
    Nat.and_two_pow_sub_one_eq_mod]
  simp only [Nat.shiftRight_eq_div_pow, Nat.reduceMod]
  rw [hhigh, hlow, productSeconds]
  generalize ts.toNat / 2 ^ 40 = a at *
  generalize ts.toNat / 2 ^ 32 % 2 ^ 8 = b at *
  generalize ts.toNat / 2 ^ 16 % 2 ^ 16 = c at *
  rw [Nat.mod_eq_of_lt (show a * 0x8637bd < 2 ^ 32 by omega),
    Nat.mod_eq_of_lt (show b * 0x8637bd < 2 ^ 32 by omega),
    Nat.mod_eq_of_lt (show c * 0x8637 < 2 ^ 32 by omega)]
  have ha : a * 0x8637bd / 2 ^ 3 < 2 ^ 30 := Nat.div_lt_of_lt_mul (by omega)
  have hb : b * 0x8637bd / 2 ^ 11 < 2 ^ 30 := Nat.div_lt_of_lt_mul (by omega)
  have hc : c * 0x8637 / 2 ^ 19 < 2 ^ 30 := Nat.div_lt_of_lt_mul (by omega)
  exact add_mod_of_lt ha hb hc

/-- What is to be divided up when the loop begins: no second is lost. -/
theorem beforeLoop_spec (ht : ts.toNat < 2 ^ 48) (hu : e.usec.toNat < 1000000)
    (hsum : instant e origin ts < 2 ^ 32 * 1000000) :
    (beforeLoop e origin ts).2.toNat = leftOver ts.toNat + e.usecOf origin ∧
      1000000 * (beforeLoop e origin ts).1.toNat + (beforeLoop e origin ts).2.toNat =
        instant e origin ts := by
  have hsec := toNat_seconds ht
  have hadd := productSeconds_add ts.toNat
  have hleft := leftOver_lt ht
  have hmillion : UInt32.toNat 1000000 = 1000000 := rfl
  have husec : ((ts &&& 0xffffffff).toUInt32 - seconds (ts >>> 32 &&& 0xffffffff).toUInt32
      (ts &&& 0xffffffff).toUInt32 * 1000000).toNat = leftOver ts.toNat := by
    rw [UInt32.toNat_sub, UInt32.toNat_mul, hsec, toNat_lsb, hmillion]
    omega
  cases origin with
  | sinceBoot =>
    simp only [beforeLoop, instant, Epoch.usecOf, Epoch.secOf, husec, hsec]
    omega
  | sinceEpoch =>
    simp only [instant, Epoch.usecOf, Epoch.secOf] at hsum
    simp only [beforeLoop, instant, Epoch.usecOf, Epoch.secOf, UInt32.toNat_add, husec, hsec]
    have husec' : leftOver ts.toNat + e.usec.toNat < 2 ^ 32 := by
      omega
    have hsec' : productSeconds ts.toNat + e.sec.toNat < 2 ^ 32 := by
      omega
    rw [Nat.mod_eq_of_lt husec', Nat.mod_eq_of_lt hsec']
    omega

end BeforeLoop

/-! ### The loop -/

section Loop

variable {looks : ℕ} {s : UInt32 × UInt32} {r : UInt32 × UInt32}

/-- It ends if it may look often enough, and leaves a second or less of microseconds. -/
theorem exists_secondLoop (hlooks : 0 < looks) (hle : s.2.toNat ≤ 1000000 * looks)
    (hsum : 1000000 * s.1.toNat + s.2.toNat < 2 ^ 32 * 1000000) :
    ∃ r, Loop.runFor secondBody looks s = some r ∧ r.2.toNat ≤ 1000000 ∧
      1000000 * r.1.toNat + r.2.toNat = 1000000 * s.1.toNat + s.2.toNat ∧
      (r.2.toNat = 0 ↔ s.2.toNat = 0) := by
  have hmillion : UInt32.toNat 1000000 = 1000000 := rfl
  induction looks generalizing s with
  | zero => exact absurd hlooks (Nat.lt_irrefl 0)
  | succ looks ih =>
    by_cases h : 1000000 < s.2
    · have hlt : 1000000 < s.2.toNat := lt_iff_toNat_lt.mp h
      have hone : UInt32.toNat 1 = 1 := rfl
      obtain ⟨sec, hsec⟩ : ∃ sec, s.1 + 1 = sec := ⟨_, rfl⟩
      obtain ⟨usec, husec⟩ : ∃ usec, s.2 - 1000000 = usec := ⟨_, rfl⟩
      have hstep : secondBody s = .inl (sec, usec) := by
        rw [← hsec, ← husec]
        exact if_pos h
      have hsec' : sec.toNat = s.1.toNat + 1 := by
        rw [← hsec, UInt32.toNat_add, hone]
        exact Nat.mod_eq_of_lt (by omega)
      have husec' : usec.toNat + 1000000 = s.2.toNat := by
        rw [← husec, UInt32.toNat_sub_of_le _ _ (UInt32.le_of_lt h), hmillion,
          Nat.sub_add_cancel hlt.le]
      obtain ⟨r, hr, hle', hsum', hzero⟩ := @ih (sec, usec) (by omega) (by dsimp only; omega)
        (by dsimp only; omega)
      dsimp only at hsum' hzero
      refine ⟨r, by rw [Loop.runFor_of_inl hstep, hr], hle', by omega, by omega⟩
    · have hstep : secondBody s = .inr s := if_neg h
      have hle' : s.2.toNat ≤ 1000000 := not_lt.mp fun h' => h (lt_iff_toNat_lt.mpr h')
      exact ⟨s, Loop.runFor_of_inr hstep looks, hle', rfl, Iff.rfl⟩

/-- It does not end before. -/
theorem secondLoop_of_lt (hlt : 1000000 * looks < s.2.toNat) :
    Loop.runFor secondBody looks s = none := by
  have hmillion : UInt32.toNat 1000000 = 1000000 := rfl
  induction looks generalizing s with
  | zero => rfl
  | succ looks ih =>
    have h : 1000000 < s.2 := lt_iff_toNat_lt.mpr (by rw [hmillion]; omega)
    have hstep : secondBody s = .inl (s.1 + 1, s.2 - 1000000) := if_pos h
    rw [Loop.runFor_of_inl hstep]
    refine ih ?_
    rw [UInt32.toNat_sub_of_le _ _ (UInt32.le_of_lt h), hmillion]
    omega

end Loop

/-! ### The instant -/

section Instant

variable {e : Epoch} {origin : TimeOrigin} {ts : UInt64}

/-- **No second gets lost**: the loop ends, and the seconds and microseconds are those from the origin
on, with at most a whole second of microseconds. -/
theorem exists_getTime (ht : ts.toNat < 2 ^ 48) (hu : e.usec.toNat < 1000000)
    (hsum : instant e origin ts < 2 ^ 32 * 1000000) :
    ∃ sec usec : UInt32, getTime 5 e origin ts = some (sec, usec) ∧ usec.toNat ≤ 1000000 ∧
      1000000 * sec.toNat + usec.toNat = instant e origin ts := by
  obtain ⟨husec, hinstant⟩ := beforeLoop_spec ht hu hsum
  have hleft := leftOver_lt ht
  have husecOf : e.usecOf origin < 1000000 := by
    cases origin with
    | sinceBoot => exact show 0 < 1000000 by omega
    | sinceEpoch => exact hu
  obtain ⟨r, hr, hle, hr', -⟩ := @exists_secondLoop 5 (beforeLoop e origin ts) (by omega)
    (by omega) (by omega)
  exact ⟨r.1, r.2, hr, hle, hr'.trans hinstant⟩

theorem exists_getTime_minute : ∃ sec usec : UInt32,
    getTime 5 ⟨100, 7⟩ .sinceEpoch 60000000 = some (sec, usec) ∧ usec.toNat ≤ 1000000 ∧
      1000000 * sec.toNat + usec.toNat = instant ⟨100, 7⟩ .sinceEpoch 60000000 :=
  exists_getTime (by decide) (by decide) (by decide)

/-- `get_time_us` is right if the seconds of the epoch have their microseconds in 32 bits. -/
theorem toNat_getTimeUs_iff (ht : ts.toNat < 2 ^ 48) (hu : e.usec.toNat < 1000000) :
    (getTimeUs e origin ts).toNat = instant e origin ts ↔ e.secOf origin < 4295 := by
  have hmillion : UInt32.toNat 1000000 = 1000000 := rfl
  cases origin with
  | sinceBoot =>
    simp only [getTimeUs, instant, Epoch.usecOf, Epoch.secOf]
    omega
  | sinceEpoch =>
    simp only [getTimeUs, instant, Epoch.usecOf, Epoch.secOf, UInt64.toNat_add,
      toNat_toUInt64, UInt32.toNat_mul, hmillion, Nat.mul_comm _ 1000000]
    rw [Nat.mod_eq_of_lt (show ts.toNat + e.usec.toNat < 2 ^ 64 by omega),
      Nat.mod_eq_of_lt (show _ + _ < 2 ^ 64 by omega)]
    omega

end Instant

/-- **The conversion is exact** exactly when what the products leave is at most three seconds, the
instant is no whole number of seconds (or the first one) and the seconds of the epoch are fewer than
4295. -/
theorem timeExact_iff {e : Epoch} {origin : TimeOrigin} {ts : UInt64} (ht : ts.toNat < 2 ^ 48)
    (hu : e.usec.toNat < 1000000) (hsum : instant e origin ts < 2 ^ 32 * 1000000) :
    TimeExact e origin ts ↔ Convertible e origin ts := by
  obtain ⟨husec, hinstant⟩ := beforeLoop_spec ht hu hsum
  constructor
  · rintro ⟨sec, usec, hget, hlt, heq, hus⟩
    have hshort : leftOver ts.toNat + e.usecOf origin ≤ 3000000 := by
      by_contra hlong
      have hnone := @secondLoop_of_lt 3 (beforeLoop e origin ts) (by omega)
      rw [getTime, hnone] at hget
      cases hget
    obtain ⟨r, hr, -, -, hzero⟩ := @exists_secondLoop 3 (beforeLoop e origin ts) (by omega)
      (by omega) (by omega)
    obtain rfl : r = (sec, usec) := Option.some.inj (hr.symm.trans hget)
    refine ⟨hshort, ?_, (toNat_getTimeUs_iff ht hu).mp (hus.trans heq)⟩
    rintro hne ⟨k, hk⟩
    -- Then nothing is left, and so nothing was there.
    have hleft := hzero.mp (by rw [instant] at heq; dsimp only at heq ⊢; omega)
    have ht0 := eq_zero_of_leftOver (show leftOver ts.toNat = 0 by omega)
    omega
  · rintro ⟨hshort, hwhole, hepoch⟩
    obtain ⟨r, hr, hle, hr', hzero⟩ := @exists_secondLoop 3 (beforeLoop e origin ts) (by omega)
      (by omega) (by omega)
    have heq := hr'.trans hinstant
    refine ⟨r.1, r.2, hr, ?_, heq, ((toNat_getTimeUs_iff ht hu).mpr hepoch).trans heq.symm⟩
    refine lt_of_le_of_ne hle fun hmillion => ?_
    have hne : ts.toNat + e.usecOf origin ≠ 0 := by
      intro h0
      have hleft : leftOver ts.toNat = 0 := by
        rw [show ts.toNat = 0 by omega]
        decide
      have hr0 := hzero.mpr (by omega)
      omega
    rw [instant] at heq
    exact hwhole hne ⟨r.1.toNat + 1 - e.secOf origin, by omega⟩

/-- The epoch of half a second, two seconds and a microsecond after the boot. -/
theorem timeExact_iff_shortly : TimeExact (timeInit 0 500000) .sinceEpoch 2000001 :=
  (timeExact_iff (by decide) (by decide) (by decide)).mpr
    ⟨by decide, fun _ => by decide, by decide⟩

/-- A second after the boot, there are no seconds and a million microseconds. -/
theorem not_timeExact_oneSecond : ¬ TimeExact (timeInit 0 0) .sinceBoot 1000000 := by
  rintro ⟨sec, usec, hget, hlt, -⟩
  have hval : getTime 3 (timeInit 0 0) .sinceBoot 1000000 = some (0, 1000000) := by decide
  obtain ⟨rfl, rfl⟩ := Prod.mk.inj (Option.some.inj (hval.symm.trans hget))
  exact absurd hlt (by decide)

end Gd32.SysTime
