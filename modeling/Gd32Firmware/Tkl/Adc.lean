import Gd32Firmware.Config
import Gd32Firmware.Lib.Loop
import Mathlib.Data.List.TakeWhile
import Mathlib.Logic.Function.Basic

/-!
# Reading the converter

`tkl_adc_read_data` fills `ch_nums * conv_cnt` entries of a buffer: channel by channel, by conversions one
after the other (single mode) or by a transfer to a buffer of its own (continuous mode), or with one
transfer for all channels (scan mode). `tkl_adc_read_voltage` then scales these entries to millivolts.

The counters of the loops that fill the entries have eight bits, so that from 256 conversions on they
never get to the end. The number of channels is not compared with the list of channels: if there are
fewer in the list, entries are left as they were, or are of channels that earlier calls used. And where
there is no memory, continuous mode leaves entries as they were without saying so. `adcRight_iff`
says that nothing else goes wrong.
-/

namespace Gd32.Tkl

open Function List Option

variable {chs : List ℕ} {ch : ℕ}

/-! ### The code -/

/-- `TUYA_ADC_MODE_E`. -/
inductive AdcMode where
  | single
  | continuous
  | scan
  deriving DecidableEq

/-- `TUYA_ADC_BASE_CFG_T`. -/
structure AdcCfg where
  /-- `ch_list.data`. -/
  chList : ℕ
  chNums : UInt8
  mode : AdcMode
  convCnt : UInt16
  freq : UInt32

/-- `adc_env_info`. -/
structure AdcEnv where
  chList : ℕ
  chNums : UInt8
  width : UInt32
  adcSamp : ℕ
  mode : AdcMode
  convCnt : UInt16

/-- The variable of `tkl_adc.c`, and the registers of the routine sequence. -/
structure Adc where
  /-- `adc_env_info`. -/
  env : AdcEnv
  /-- `ADC_RSQ`: the channel at each rank. -/
  rsq : ℕ → ℕ
  /-- `ADC_SAMPT`: the sample time of each channel. -/
  sampt : ℕ → ℕ

def adcDevNum : ℕ := 1

def adcDevChnlSum : ℕ := 9

def adcVolMax : UInt32 := 3300

/-- The sample time for a frequency. -/
def adcSampOf (freq width : UInt32) : ℕ :=
  if freq = 0 then 4
  else
    let adcSamp := 40000000 / freq
    if 312 + width ≤ adcSamp then 8
    else if 128 + width ≤ adcSamp then 7
    else if 98 + width ≤ adcSamp then 6
    else if 70 + width ≤ adcSamp then 5
    else if 41 + width ≤ adcSamp then 4
    else if 21 + width ≤ adcSamp then 3
    else if 9 + width ≤ adcSamp then 2
    else if 2 + width ≤ adcSamp then 1
    else 0

/-- The loop of `tkl_adc_init` over the channels that are left, with `num` and `ch_list`. -/
def initLoop (data chNums : ℕ) : List ℕ → ℕ → ℕ → ℕ
  | [], _, chList => chList
  | i :: is, num, chList =>
    if num < chNums then
      if data.testBit i then initLoop data chNums is (num + 1) (chList ||| 1 <<< i)
      else initLoop data chNums is num chList
    else chList

def tklAdcInit (portNum : ℕ) (cfg : AdcCfg) (s : Adc) : Option OprtErr × Adc :=
  if adcDevNum < portNum ∨ adcDevChnlSum < cfg.chNums.toNat ∨ cfg.chList = 0 then
    (some .notSupported, s)
  else
    (none,
      { s with
        env :=
          { chList :=
              if cfg.chNums.toNat = adcDevChnlSum then 0x1FF
              else initLoop cfg.chList cfg.chNums.toNat (List.range adcDevChnlSum) 0 0
            chNums := cfg.chNums
            width := s.env.width
            adcSamp := adcSampOf cfg.freq s.env.width
            mode := cfg.mode
            convCnt := cfg.convCnt } })

def adcRoutineChannelConfig (rank channel sampleTime : ℕ) (s : Adc) : Adc :=
  { s with
    rsq := update s.rsq rank channel
    sampt := update s.sampt channel sampleTime }

/-- A buffer of `int32_t`, by their bits. -/
abbrev AdcBuff := ℕ → UInt32

/-- What the converter and the heap give. -/
structure AdcWorld where
  /-- The result of each conversion, of a channel. -/
  conv : ℕ → ℕ → UInt32
  grants : ℕ → Bool

/-- The state of a call. -/
structure AdcRead where
  adc : Adc
  buff : AdcBuff
  convs : ℕ
  allocs : ℕ

/-- The body of a loop that fills `cnt` entries from `off` on; the counter `i` is a `uint8_t`. The value
is of the pass and of the counter. -/
def fillBody (cnt off : ℕ) (value : ℕ → ℕ → UInt32) (s : UInt8 × ℕ × AdcBuff) :
    (UInt8 × ℕ × AdcBuff) ⊕ AdcBuff :=
  if s.1.toNat < cnt then
    .inl (s.1 + 1, s.2.1 + 1, update s.2.2 (off + s.1.toNat) (value s.2.1 s.1.toNat))
  else .inr s.2.2

/-- Such a loop, up to a number of passes. -/
def fillLoop (passes cnt off : ℕ) (value : ℕ → ℕ → UInt32) (buff : AdcBuff) : Option AdcBuff :=
  Loop.runFor (fillBody cnt off value) passes (0, 0, buff)

/-- `tkl_adc_read_single_channel` for a port and a channel that there are, with `data` at an offset of the
buffer; the result of the call is not looked at by the caller. -/
def tklAdcReadSingleChannel (w : AdcWorld) (passes chId off : ℕ) (s : AdcRead) : Option AdcRead :=
  let cnt := s.adc.env.convCnt.toNat
  match s.adc.env.mode with
  | .single =>
    -- A conversion for each entry.
    (fillLoop passes cnt off (fun pass _ => w.conv (s.convs + pass) chId) s.buff).map fun buff =>
      { s with
        adc := adcRoutineChannelConfig 0 chId s.adc.env.adcSamp s.adc
        buff := buff
        convs := s.convs + cnt }
  | _ =>
    if w.grants s.allocs then
      -- The transfer has filled `p_adc_value`.
      let pAdcValue i := w.conv (s.convs + i) chId
      (fillLoop passes cnt off (fun _ i => pAdcValue i) s.buff).map fun buff =>
        { adc := adcRoutineChannelConfig 0 chId s.adc.env.adcSamp s.adc
          buff := buff
          convs := s.convs + cnt
          allocs := s.allocs + 1 }
    else some { s with allocs := s.allocs + 1 }

/-- The channels of a list. -/
def channels (chList : ℕ) : List ℕ := (List.range adcDevChnlSum).filter (chList.testBit ·)

/-- The loop of `tkl_adc_read_data` over the channels, with `buf_idx`. -/
def readChannels (w : AdcWorld) (passes : ℕ) : List ℕ → ℕ → AdcRead → Option AdcRead
  | [], _, s => some s
  | ch :: chs, bufIdx, s =>
    (tklAdcReadSingleChannel w passes ch (bufIdx * s.adc.env.convCnt.toNat) s).bind
      (readChannels w passes chs (bufIdx + 1))

/-- The loop of `tkl_adc_read_data` that gives the channels their ranks. -/
def rankChannels : List ℕ → ℕ → Adc → Adc
  | [], _, s => s
  | ch :: chs, rank, s => rankChannels chs (rank + 1) (adcRoutineChannelConfig rank ch ch s)

/-- `ch_nums * conv_cnt`. -/
def AdcEnv.count (env : AdcEnv) : ℕ := env.chNums.toNat * env.convCnt.toNat

/-- `tkl_adc_read_data`, for transfers that complete. -/
def tklAdcReadData (w : AdcWorld) (passes portNum : ℕ) (len : UInt16) (s : AdcRead) :
    Option (Option OprtErr × AdcRead) :=
  if adcDevNum < portNum then some (some .invalidParm, s)
  else if len.toNat < s.adc.env.count then some (some .comError, s)
  else
    match s.adc.env.mode with
    | .scan =>
      if w.grants s.allocs then
        let adc := rankChannels (channels s.adc.env.chList) 0 s.adc
        -- The transfer has gone through the ranks.
        let pAdcValue i := w.conv (s.convs + i) (adc.rsq (i % s.adc.env.chNums.toNat))
        (fillLoop passes s.adc.env.count 0 (fun _ i => pAdcValue i) s.buff).map fun buff =>
          (none,
            { adc := adc
              buff := buff
              convs := s.convs + s.adc.env.count
              allocs := s.allocs + 1 })
      else some (some .mallocFailed, { s with allocs := s.allocs + 1 })
    | _ => (readChannels w passes (channels s.adc.env.chList) 0 s).map fun s => (none, s)

/-- A conversion result in millivolts. -/
def millivolts (width v : UInt32) : UInt32 := v * adcVolMax / ((1 <<< width) - 1)

def tklAdcReadVoltage (w : AdcWorld) (passes portNum : ℕ) (len : UInt16) (s : AdcRead) :
    Option (Option OprtErr × AdcRead) :=
  if adcDevNum < portNum ∨ len = 0 then some (some .invalidParm, s)
  else
    (tklAdcReadData w passes portNum len s).map fun r =>
      match r with
      | (some rt, s) => (some rt, s)
      | (none, s) =>
        let count := min s.adc.env.count len.toNat
        (none,
          { s with
            buff := fun i => if i < count then millivolts s.adc.env.width (s.buff i) else s.buff i })

/-! ### What is to be so -/

/-- A call fills the entries it is to fill with what is good, and touches no others. -/
def Fills (read : ℕ → AdcRead → Option (Option OprtErr × AdcRead)) (s : AdcRead) (count : ℕ)
    (good : UInt32 → Prop) : Prop :=
  ∃ passes status s', read passes s = some (status, s') ∧
    (∀ k, count ≤ k → s'.buff k = s.buff k) ∧ (status = none → ∀ k, k < count → good (s'.buff k))

/-- The result of a conversion of a channel of the configuration. -/
def AdcWorld.Result (w : AdcWorld) (cfg : AdcCfg) (v : UInt32) : Prop :=
  ∃ ch n, cfg.chList.testBit ch ∧ v = w.conv n ch

/-- Such a result, scaled. -/
def AdcWorld.Voltage (w : AdcWorld) (cfg : AdcCfg) (v : UInt32) : Prop :=
  ∃ u, w.Result cfg u ∧ v.toNat = u.toNat * 3300 / 4095 ∧ v.toNat ≤ 3300

/-- **The reads are right** for a configuration that was accepted, whatever the conversions of twelve
bits are and whatever the buffer is. -/
def AdcRight (grants : ℕ → Bool) (cfg : AdcCfg) (adc : Adc) (portNum : ℕ) (len : UInt16) : Prop :=
  ∀ adc', tklAdcInit portNum cfg adc = (none, adc') →
    ∀ (conv : ℕ → ℕ → UInt32) (buff : AdcBuff), (∀ n ch, (conv n ch).toNat < 4096) →
      Fills (fun passes => tklAdcReadData ⟨conv, grants⟩ passes portNum len) ⟨adc', buff, 0, 0⟩
        (cfg.chNums.toNat * cfg.convCnt.toNat) (AdcWorld.Result ⟨conv, grants⟩ cfg) ∧
      Fills (fun passes => tklAdcReadVoltage ⟨conv, grants⟩ passes portNum len) ⟨adc', buff, 0, 0⟩
        (cfg.chNums.toNat * cfg.convCnt.toNat) (AdcWorld.Voltage ⟨conv, grants⟩ cfg)

/-- The configuration is accepted. -/
def AdcCfg.Accepted (cfg : AdcCfg) (portNum : ℕ) : Prop :=
  portNum ≤ adcDevNum ∧ cfg.chNums.toNat ≤ adcDevChnlSum ∧ cfg.chList ≠ 0

/-- The list has the channels that it should have. -/
def AdcCfg.Listed (cfg : AdcCfg) : Prop := cfg.chNums.toNat ≤ (channels cfg.chList).length

/-- What the reads can do. -/
def AdcCfg.Readable (cfg : AdcCfg) (grants : ℕ → Bool) (rsq : ℕ → ℕ) : Prop :=
  match cfg.mode with
  | .single => cfg.convCnt.toNat < 256 ∧ cfg.Listed
  | .continuous =>
    cfg.convCnt.toNat < 256 ∧ cfg.Listed ∧ ∀ k, k < cfg.chNums.toNat → grants k = true
  | .scan =>
    grants 0 = false ∨ cfg.chNums.toNat * cfg.convCnt.toNat < 256 ∧
      (cfg.Listed ∨ cfg.chNums.toNat < adcDevChnlSum ∧
        ∀ k, (channels cfg.chList).length ≤ k → k < cfg.chNums.toNat → cfg.chList.testBit (rsq k))

/-! ### The loops that fill entries -/

section Fill

variable {passes cnt off : ℕ} {value : ℕ → ℕ → UInt32} {buff b : AdcBuff}

/-- The entries from `off` on, filled. -/
def filled (cnt off : ℕ) (value : ℕ → ℕ → UInt32) (buff : AdcBuff) : AdcBuff := fun k =>
  if off ≤ k ∧ k < off + cnt then value (k - off) (k - off) else buff k

theorem filled_zero : filled 0 off value buff = buff :=
  funext fun k => if_neg (by omega)

theorem filled_succ (n : ℕ) :
    update (filled n off value buff) (off + n) (value n n) =
      filled (n + 1) off value buff := by
  funext k
  by_cases hk : k = off + n
  · subst hk
    rw [update_self, filled, if_pos (by omega), Nat.add_sub_cancel_left]
  · rw [update_of_ne hk, filled, filled]
    exact if_congr (by omega) rfl rfl

/-- With fewer than 256 entries the loop ends. -/
theorem fillLoop_of_lt (hcnt : cnt < 256) :
    fillLoop (cnt + 1) cnt off value buff = some (filled cnt off value buff) := by
  suffices h : ∀ d n, n + d = cnt →
      Loop.runFor (fillBody cnt off value) (d + 1) (UInt8.ofNat n, n, filled n off value buff) =
        some (filled cnt off value buff) by
    have hstart := h cnt 0 (Nat.zero_add cnt)
    rw [filled_zero] at hstart
    exact hstart
  intro d
  induction d with
  | zero =>
    rintro n rfl
    have hn : (UInt8.ofNat n).toNat = n := UInt8.toNat_ofNat_of_lt' hcnt
    have hbody : fillBody (n + 0) off value (UInt8.ofNat n, n, filled n off value buff) =
        .inr (filled n off value buff) :=
      if_neg (show ¬ (UInt8.ofNat n).toNat < n + 0 by omega)
    exact Loop.runFor_of_inr hbody 0
  | succ d ih =>
    intro n hsum
    have hn : (UInt8.ofNat n).toNat = n := UInt8.toNat_ofNat_of_lt' (show n < 256 by omega)
    have hbody : fillBody cnt off value (UInt8.ofNat n, n, filled n off value buff) =
        .inl (UInt8.ofNat (n + 1), n + 1, filled (n + 1) off value buff) := by
      rw [fillBody]
      rw [hn, if_pos (by omega), filled_succ, UInt8.ofNat_add]
      rfl
    rw [Loop.runFor_of_inl hbody]
    exact ih (n + 1) (by omega)

/-- **With 256 entries or more the loop never ends**: the counter is below 256. -/
theorem fillLoop_of_ge (hcnt : 256 ≤ cnt) (passes : ℕ) :
    fillLoop passes cnt off value buff = none := by
  refine Loop.runFor_of_stuck (P := fun _ => True) ?_ trivial passes
  intro s _
  have hlt := s.1.toNat_lt
  exact ⟨_, if_pos (by omega), trivial⟩

/-- What a loop that has ended left. -/
theorem eq_filled_of_fillLoop (h : fillLoop passes cnt off value buff = some b) :
    cnt < 256 ∧ b = filled cnt off value buff := by
  by_cases hcnt : cnt < 256
  · exact ⟨hcnt, Loop.runFor_unique h (fillLoop_of_lt hcnt)⟩
  · rw [fillLoop_of_ge (Nat.le_of_not_lt hcnt)] at h
    cases h

theorem fillLoop_256 (hcnt : cnt < 256) :
    fillLoop 256 cnt off value buff = some (filled cnt off value buff) :=
  Loop.runFor_mono (fillLoop_of_lt hcnt) hcnt

end Fill

/-! ### The channels one after the other -/

section Channels

variable {w : AdcWorld} {passes : ℕ} {s s' : AdcRead}

/-- Whether the reading of a channel has what it needs, that is, memory in continuous mode. -/
def AdcRead.Able (w : AdcWorld) (s : AdcRead) (j : ℕ) : Prop :=
  s.adc.env.mode = .single ∨ w.grants (s.allocs + j) = true

/-- One channel. -/
structure ReadOne (w : AdcWorld) (ch off : ℕ) (s s' : AdcRead) : Prop where
  env : s'.adc.env = s.adc.env
  /-- There is one allocation less to come. -/
  able : ∀ j, AdcRead.Able w s' j ↔ AdcRead.Able w s (j + 1)
  some : AdcRead.Able w s 0 → s.adc.env.convCnt.toNat < 256 ∧
    ∃ n, s'.buff = filled s.adc.env.convCnt.toNat off (fun _ i => w.conv (n + i) ch) s.buff
  none : ¬ AdcRead.Able w s 0 → s'.buff = s.buff

/-- What one channel does. -/
theorem readOne (hmode : s.adc.env.mode ≠ .scan) {off : ℕ}
    (h : tklAdcReadSingleChannel w passes ch off s = some s') : ReadOne w ch off s s' := by
  rw [tklAdcReadSingleChannel] at h
  cases hm : s.adc.env.mode with
  | scan => exact absurd hm hmode
  | single =>
    simp only [hm, map_eq_some_iff] at h
    obtain ⟨b, hb, rfl⟩ := h
    obtain ⟨hcnt, rfl⟩ := eq_filled_of_fillLoop hb
    exact ⟨rfl, fun j => iff_of_true (.inl hm) (.inl hm), fun _ => ⟨hcnt, s.convs, rfl⟩,
      fun hnot => absurd (.inl hm) hnot⟩
  | continuous =>
    have hable : ∀ j, AdcRead.Able w s j ↔ w.grants (s.allocs + j) = true := by
      intro j
      rw [AdcRead.Able, hm]
      exact or_iff_right (by decide)
    simp only [hm] at h
    by_cases hgrant : w.grants s.allocs = true
    · simp only [if_pos hgrant, map_eq_some_iff] at h
      obtain ⟨b, hb, rfl⟩ := h
      obtain ⟨hcnt, rfl⟩ := eq_filled_of_fillLoop hb
      refine ⟨rfl, ?_, fun _ => ⟨hcnt, s.convs, rfl⟩, fun hnot => absurd ((hable 0).mpr hgrant) hnot⟩
      intro j
      rw [hable, AdcRead.Able, show s.allocs + (j + 1) = s.allocs + 1 + j by omega]
      exact or_iff_right fun hsingle => nomatch hm.symm.trans hsingle
    · simp only [if_neg hgrant, Option.some.injEq] at h
      subst h
      refine ⟨rfl, ?_, fun hsome => absurd ((hable 0).mp hsome) hgrant, fun _ => rfl⟩
      intro j
      rw [hable, AdcRead.Able, show s.allocs + (j + 1) = s.allocs + 1 + j by omega]
      exact or_iff_right fun hsingle => nomatch hm.symm.trans hsingle

/-- The channels of a list, from a place on. -/
structure ReadAll (w : AdcWorld) (chs : List ℕ) (bufIdx : ℕ) (s s' : AdcRead) : Prop where
  env : s'.adc.env = s.adc.env
  /-- What is before the place and behind the entries of the list is not touched. -/
  frame : ∀ k, k < bufIdx * s.adc.env.convCnt.toNat ∨
    (bufIdx + chs.length) * s.adc.env.convCnt.toNat ≤ k → s'.buff k = s.buff k
  /-- With memory, there are results of the channel. -/
  some : ∀ j ch, chs[j]? = some ch → AdcRead.Able w s j → s.adc.env.convCnt.toNat < 256 ∧
    ∀ i, i < s.adc.env.convCnt.toNat →
      ∃ n, s'.buff ((bufIdx + j) * s.adc.env.convCnt.toNat + i) = w.conv n ch
  none : ∀ j, j < chs.length → ¬ AdcRead.Able w s j → ∀ i, i < s.adc.env.convCnt.toNat →
    s'.buff ((bufIdx + j) * s.adc.env.convCnt.toNat + i) =
      s.buff ((bufIdx + j) * s.adc.env.convCnt.toNat + i)

/-- Entries of one channel, and the others. -/
theorem ReadOne.buff_of_notMem {off k : ℕ} (h : ReadOne w ch off s s')
    (hk : k < off ∨ off + s.adc.env.convCnt.toNat ≤ k) : s'.buff k = s.buff k := by
  by_cases hable : AdcRead.Able w s 0
  · obtain ⟨-, n, hbuff⟩ := h.some hable
    rw [hbuff]
    exact if_neg (by omega)
  · rw [h.none hable]

/-- **What the loop over the channels does**, if it comes to its end. -/
theorem readAll {bufIdx : ℕ} (hmode : s.adc.env.mode ≠ .scan)
    (h : readChannels w passes chs bufIdx s = some s') : ReadAll w chs bufIdx s s' := by
  induction chs generalizing bufIdx s with
  | nil =>
    obtain rfl := Option.some.inj h
    exact ⟨rfl, fun _ _ => rfl, nofun, fun _ hj => absurd hj (Nat.not_lt_zero _)⟩
  | cons ch chs ih =>
    obtain ⟨s₁, hone, hrest⟩ := bind_eq_some_iff.mp h
    have h₁ := readOne hmode hone
    have h₂ := ih (h₁.env ▸ hmode) hrest
    have hcnt : s₁.adc.env.convCnt.toNat = s.adc.env.convCnt.toNat := by rw [h₁.env]
    have hframe := h₂.frame
    have hsome := h₂.some
    have hnone := h₂.none
    rw [hcnt] at hframe hsome hnone
    have hnext : (bufIdx + 1) * s.adc.env.convCnt.toNat =
        bufIdx * s.adc.env.convCnt.toNat + s.adc.env.convCnt.toNat := Nat.succ_mul _ _
    have hlen : (bufIdx + 1 + chs.length) * s.adc.env.convCnt.toNat =
        bufIdx * s.adc.env.convCnt.toNat + s.adc.env.convCnt.toNat +
          chs.length * s.adc.env.convCnt.toNat := by rw [add_mul, hnext]
    have hplace : ∀ j, bufIdx + (j + 1) = bufIdx + 1 + j := by omega
    refine ⟨h₂.env.trans h₁.env, ?_, ?_, ?_⟩
    · intro k hk
      rw [length_cons, hplace, hlen] at hk
      rw [hframe k (by omega), h₁.buff_of_notMem (by omega)]
    · rintro (_ | j) ch' hj hable
      · obtain rfl : ch = ch' := Option.some.inj hj
        obtain ⟨hlt, n, hbuff⟩ := h₁.some hable
        refine ⟨hlt, ?_⟩
        intro i hi
        refine ⟨n + i, ?_⟩
        rw [add_zero, hframe _ (by omega), hbuff, filled, if_pos (by omega),
          Nat.add_sub_cancel_left]
      · obtain ⟨hlt, hres⟩ := hsome j ch' hj ((h₁.able j).mpr hable)
        refine ⟨hlt, ?_⟩
        intro i hi
        rw [hplace]
        exact hres i hi
    · rintro (_ | j) hj hable i hi
      · rw [add_zero, hframe _ (by omega), h₁.none hable]
      · have hback : bufIdx * s.adc.env.convCnt.toNat + s.adc.env.convCnt.toNat ≤
            (bufIdx + 1 + j) * s.adc.env.convCnt.toNat + i := by
          rw [add_mul, hnext]
          omega
        rw [hplace, hnone j (Nat.lt_of_succ_lt_succ hj) (fun hj' => hable ((h₁.able j).mp hj')) i hi]
        exact h₁.buff_of_notMem (.inr hback)

/-- The loop comes to its end with fewer than 256 entries for a channel. -/
theorem exists_readChannels {bufIdx : ℕ} (hcnt : s.adc.env.convCnt.toNat < 256) :
    ∃ s', readChannels w 256 chs bufIdx s = some s' := by
  induction chs generalizing bufIdx s with
  | nil => exact ⟨s, rfl⟩
  | cons ch chs ih =>
    obtain ⟨s₁, hone, henv⟩ : ∃ s₁, tklAdcReadSingleChannel w 256 ch
        (bufIdx * s.adc.env.convCnt.toNat) s = some s₁ ∧ s₁.adc.env = s.adc.env := by
      rw [tklAdcReadSingleChannel]
      split
      · rw [fillLoop_256 hcnt]
        exact ⟨_, rfl, rfl⟩
      · split_ifs
        · dsimp only
          rw [fillLoop_256 hcnt]
          exact ⟨_, rfl, rfl⟩
        · exact ⟨_, rfl, rfl⟩
    rw [readChannels, hone, bind_some]
    exact ih (henv ▸ hcnt)

end Channels

/-! ### The list of channels -/

section Listed

/-- The bits that the loop of `tkl_adc_init` sets are the first ones. -/
theorem initLoop_spec (data n : ℕ) {is : List ℕ} (hnodup : is.Nodup) (num acc : ℕ)
    (hacc : ∀ i ∈ is, acc.testBit i = false) :
    is.filter ((initLoop data n is num acc).testBit ·) =
        (is.filter (data.testBit ·)).take (n - num) ∧
      ∀ b, b ∉ is → (initLoop data n is num acc).testBit b = acc.testBit b := by
  induction is generalizing num acc with
  | nil => exact ⟨by simp, fun _ _ => rfl⟩
  | cons i is ih =>
    obtain ⟨hi, hnodup⟩ := nodup_cons.mp hnodup
    have hacc' : ∀ j ∈ is, acc.testBit j = false := fun j hj => hacc j (mem_cons_of_mem i hj)
    rw [initLoop]
    by_cases hnum : num < n
    · rw [if_pos hnum]
      by_cases hdata : data.testBit i = true
      · rw [if_pos hdata, filter_cons_of_pos hdata]
        have hset : ∀ b, (acc ||| 1 <<< i).testBit b = (acc.testBit b || decide (b = i)) := by
          intro b
          rw [Nat.testBit_or, Nat.one_shiftLeft, Nat.testBit_two_pow]
          congr 1
          exact decide_eq_decide.mpr eq_comm
        obtain ⟨hfilter, hother⟩ := ih hnodup (num + 1) (acc ||| 1 <<< i) (by
          intro j hj
          have hne : j ≠ i := fun heq => hi (heq ▸ hj)
          rw [hset, hacc' j hj, decide_eq_false hne]
          rfl)
        have hbit : (initLoop data n is (num + 1) (acc ||| 1 <<< i)).testBit i = true := by
          rw [hother i hi, hset, decide_eq_true rfl, Bool.or_true]
        obtain ⟨m, hm⟩ : ∃ m, n - num = m + 1 := ⟨n - num - 1, by omega⟩
        refine ⟨?_, ?_⟩
        · rw [filter_cons_of_pos hbit, hfilter, hm, take_succ_cons,
            show n - (num + 1) = m by omega]
        · intro b hb
          rw [mem_cons, not_or] at hb
          rw [hother b hb.2, hset, decide_eq_false hb.1, Bool.or_false]
      · rw [if_neg hdata, filter_cons_of_neg hdata]
        obtain ⟨hfilter, hother⟩ := ih hnodup num acc hacc'
        have hbit : ¬ (initLoop data n is num acc).testBit i = true := by
          rw [hother i hi, hacc i mem_cons_self]
          exact Bool.false_ne_true
        refine ⟨by rw [filter_cons_of_neg hbit, hfilter], ?_⟩
        intro b hb
        exact hother b fun h => hb (mem_cons_of_mem i h)
    · rw [if_neg hnum, show n - num = 0 by omega, take_zero]
      refine ⟨filter_eq_nil_iff.mpr ?_, fun _ _ => rfl⟩
      intro j hj
      rw [hacc j hj]
      exact Bool.false_ne_true

/-- The channels that are read. -/
def AdcCfg.read (cfg : AdcCfg) : List ℕ :=
  if cfg.chNums.toNat = adcDevChnlSum then List.range adcDevChnlSum
  else (channels cfg.chList).take cfg.chNums.toNat

/-- What `tkl_adc_init` makes of a configuration. -/
theorem tklAdcInit_spec {portNum : ℕ} {cfg : AdcCfg} {s s' : Adc}
    (h : tklAdcInit portNum cfg s = (none, s')) :
    cfg.Accepted portNum ∧ s'.rsq = s.rsq ∧ s'.env.width = s.env.width ∧ s'.env.mode = cfg.mode ∧
      s'.env.convCnt = cfg.convCnt ∧ s'.env.chNums = cfg.chNums ∧
      channels s'.env.chList = cfg.read := by
  rw [tklAdcInit] at h
  by_cases hrefused : adcDevNum < portNum ∨ adcDevChnlSum < cfg.chNums.toNat ∨ cfg.chList = 0
  · rw [if_pos hrefused] at h
    cases h
  · rw [if_neg hrefused] at h
    obtain rfl := congrArg Prod.snd h
    simp only [not_or, not_lt] at hrefused
    refine ⟨hrefused, rfl, rfl, rfl, rfl, rfl, ?_⟩
    dsimp only
    rw [AdcCfg.read]
    split_ifs
    · decide
    · exact (initLoop_spec cfg.chList cfg.chNums.toNat
        (nodup_range : (List.range adcDevChnlSum).Nodup) 0 0 fun i _ => Nat.zero_testBit i).1

theorem mem_channels {chList : ℕ} :
    ch ∈ channels chList ↔ ch < adcDevChnlSum ∧ chList.testBit ch = true := by
  rw [channels, mem_filter, mem_range]

end Listed

/-! ### What the configuration is read as -/

section Read

variable {cfg : AdcCfg}

/-- The channels of the list, as many as there should be. -/
theorem AdcCfg.Listed.read_eq (h : cfg.Listed) :
    cfg.read.length = cfg.chNums.toNat ∧ ∀ ch ∈ cfg.read, cfg.chList.testBit ch = true := by
  rw [AdcCfg.read]
  split_ifs with hall
  · refine ⟨length_range.trans hall.symm, ?_⟩
    intro ch hch
    -- Then no channel was left out of the list.
    have hfull : (channels cfg.chList).length = (List.range adcDevChnlSum).length := by
      have hle := length_filter_le (cfg.chList.testBit ·) (List.range adcDevChnlSum)
      rw [length_range] at hle ⊢
      exact le_antisymm hle (hall ▸ h)
    exact length_filter_eq_length_iff.mp hfull ch hch
  · refine ⟨by rw [length_take, min_eq_left h], ?_⟩
    intro ch hch
    exact (mem_channels.mp (mem_of_mem_take hch)).2

/-- If the channels that are read are enough and are of the list, then the list has enough. -/
theorem AdcCfg.listed_of_read (hlen : cfg.chNums.toNat ≤ cfg.read.length)
    (hmem : ∀ ch ∈ cfg.read, cfg.chList.testBit ch = true) : cfg.Listed := by
  rw [AdcCfg.read] at hlen hmem
  rw [Listed]
  split_ifs at hlen hmem with hall
  · have hfull : channels cfg.chList = List.range adcDevChnlSum := filter_eq_self.mpr hmem
    rw [hfull]
    exact hlen
  · rw [length_take] at hlen
    omega

/-- Without enough channels in the list, all of them are read, but for the case of nine. -/
theorem AdcCfg.read_of_not_listed (h : ¬ cfg.Listed) (hall : cfg.chNums.toNat ≠ adcDevChnlSum) :
    cfg.read = channels cfg.chList := by
  rw [AdcCfg.read, if_neg hall]
  exact take_of_length_le (Nat.le_of_not_le h)

end Read

/-- The converter whose results say that a channel is a certain one. -/
def probe (ch : ℕ) : ℕ → ℕ → UInt32 := fun _ ch' => if ch' = ch then 1 else 0

theorem probe_lt (ch n ch' : ℕ) : (probe ch n ch').toNat < 4096 := by
  rw [probe]
  split_ifs
  · decide
  · decide

/-- A buffer of what no conversion gives. -/
def noResult : AdcBuff := fun _ => 5000

section Results

variable {w : AdcWorld} {cfg : AdcCfg}

theorem not_result_noResult (hconv : ∀ n ch, (w.conv n ch).toNat < 4096) (k : ℕ) :
    ¬ w.Result cfg (noResult k) := by
  rintro ⟨ch, n, -, heq⟩
  have hlt := hconv n ch
  rw [← heq] at hlt
  exact absurd hlt (show ¬ (5000 : UInt32).toNat < 4096 by decide)

/-- The probe for a channel finds only channels of the configuration. -/
theorem testBit_of_probe {n : ℕ} {grants : ℕ → Bool}
    (h : AdcWorld.Result ⟨probe ch, grants⟩ cfg (probe ch n ch)) : cfg.chList.testBit ch = true := by
  obtain ⟨ch', m, hbit, heq⟩ := h
  by_cases hne : ch' = ch
  · exact hne ▸ hbit
  · have heq' : (if ch = ch then 1 else 0 : UInt32) = if ch' = ch then 1 else 0 := heq
    rw [if_pos rfl, if_neg hne] at heq'
    exact absurd heq' (by decide)

end Results

/-! ### The reads -/

section Reads

variable {grants : ℕ → Bool} {cfg : AdcCfg} {adc adc' : Adc} {portNum : ℕ} {len : UInt16}
  {conv : ℕ → ℕ → UInt32} {buff : AdcBuff}

/-- `tkl_adc_read_data` for a configuration that was accepted and a buffer that is long enough. -/
theorem tklAdcReadData_eq (hinit : tklAdcInit portNum cfg adc = (none, adc'))
    (hlen : cfg.chNums.toNat * cfg.convCnt.toNat ≤ len.toNat) (w : AdcWorld) (passes : ℕ) :
    tklAdcReadData w passes portNum len ⟨adc', buff, 0, 0⟩ =
      if cfg.mode = .scan then
        if w.grants 0 then
          (fillLoop passes (cfg.chNums.toNat * cfg.convCnt.toNat) 0 (fun _ i =>
            w.conv (0 + i) ((rankChannels cfg.read 0 adc').rsq (i % cfg.chNums.toNat))) buff).map
              fun buff => (none, ⟨rankChannels cfg.read 0 adc', buff,
                0 + cfg.chNums.toNat * cfg.convCnt.toNat, 0 + 1⟩)
        else some (some .mallocFailed, ⟨adc', buff, 0, 0 + 1⟩)
      else
        (readChannels w passes cfg.read 0 ⟨adc', buff, 0, 0⟩).map fun s => (none, s) := by
  obtain ⟨haccepted, -, -, hmode, hcnt, hnums, hread⟩ := tklAdcInit_spec hinit
  have hport : ¬ adcDevNum < portNum := Nat.not_lt_of_le haccepted.1
  have hcount : adc'.env.count = cfg.chNums.toNat * cfg.convCnt.toNat := by
    rw [AdcEnv.count, hcnt, hnums]
  rw [tklAdcReadData, if_neg hport]
  rw [hcount, if_neg (Nat.not_lt_of_le hlen), hread, hnums, hmode]
  cases hm : cfg.mode with
  | scan => rfl
  | single => rfl
  | continuous => rfl

/-- There are at most as many channels to read as there should be. -/
theorem AdcCfg.length_read_le (cfg : AdcCfg) : cfg.read.length ≤ cfg.chNums.toNat := by
  rw [AdcCfg.read]
  split_ifs with hall
  · exact hall.ge
  · rw [length_take]
    exact min_le_left _ _

/-- **Channel by channel**, in single and in continuous mode. -/
theorem reads_channels_iff (hinit : tklAdcInit portNum cfg adc = (none, adc'))
    (hlen : cfg.chNums.toNat * cfg.convCnt.toNat ≤ len.toNat) (hmode : cfg.mode ≠ .scan) :
    (∀ (conv : ℕ → ℕ → UInt32) (buff : AdcBuff), (∀ n ch, (conv n ch).toNat < 4096) →
      Fills (fun passes => tklAdcReadData ⟨conv, grants⟩ passes portNum len) ⟨adc', buff, 0, 0⟩
        (cfg.chNums.toNat * cfg.convCnt.toNat) (AdcWorld.Result ⟨conv, grants⟩ cfg)) ↔
      cfg.chNums.toNat * cfg.convCnt.toNat = 0 ∨ cfg.convCnt.toNat < 256 ∧ cfg.Listed ∧
        ∀ k, k < cfg.chNums.toNat → cfg.mode = .single ∨ grants k = true := by
  obtain ⟨haccepted, -, -, hmode', hcnt, hnums, hread⟩ := tklAdcInit_spec hinit
  have hable : ∀ conv buff j, AdcRead.Able ⟨conv, grants⟩ ⟨adc', buff, 0, 0⟩ j ↔
      cfg.mode = .single ∨ grants j = true := by
    intro conv buff j
    rw [AdcRead.Able, hmode', Nat.zero_add]
  have hle := cfg.length_read_le
  have hall : ∀ {conv : ℕ → ℕ → UInt32} {buff : AdcBuff} {passes : ℕ} {s' : AdcRead},
      readChannels ⟨conv, grants⟩ passes cfg.read 0 ⟨adc', buff, 0, 0⟩ = some s' →
      ReadAll ⟨conv, grants⟩ cfg.read 0 ⟨adc', buff, 0, 0⟩ s' :=
    fun h => readAll (hmode'.symm ▸ hmode) h
  have heq : ∀ conv buff passes, tklAdcReadData ⟨conv, grants⟩ passes portNum len
      ⟨adc', buff, 0, 0⟩ = (readChannels ⟨conv, grants⟩ passes cfg.read 0 ⟨adc', buff, 0, 0⟩).map
        fun s => (none, s) := by
    intro conv buff passes
    rw [tklAdcReadData_eq hinit hlen, if_neg hmode]
  constructor
  · intro h
    by_cases hzero : cfg.chNums.toNat * cfg.convCnt.toNat = 0
    · exact .inl hzero
    have hpos : 0 < cfg.convCnt.toNat := Nat.pos_of_ne_zero fun h0 => hzero (by rw [h0, mul_zero])
    have hpos' : 0 < cfg.chNums.toNat := Nat.pos_of_ne_zero fun h0 => hzero (by rw [h0, zero_mul])
    -- Every probe comes to its end and fills the entries of a buffer without results.
    have hprobe : ∀ ch, ∃ s', ReadAll ⟨probe ch, grants⟩ cfg.read 0 ⟨adc', noResult, 0, 0⟩ s' ∧
        ∀ k, k < cfg.chNums.toNat * cfg.convCnt.toNat →
          AdcWorld.Result ⟨probe ch, grants⟩ cfg (s'.buff k) := by
      intro ch
      obtain ⟨passes, status, s', hrun, -, hgood⟩ := h (probe ch) noResult (probe_lt ch)
      obtain ⟨s'', hrun', hpair⟩ := map_eq_some_iff.mp ((heq _ _ _).symm.trans hrun)
      obtain ⟨rfl, rfl⟩ := Prod.mk.inj hpair
      exact ⟨_, hall hrun', hgood rfl⟩
    have hfirst : ∀ j, j < cfg.read.length → j * cfg.convCnt.toNat <
        cfg.chNums.toNat * cfg.convCnt.toNat := fun j hj =>
      Nat.mul_lt_mul_of_pos_right (lt_of_lt_of_le hj hle) hpos
    have hcan : ∀ j, j < cfg.read.length → cfg.mode = .single ∨ grants j = true := by
      intro j hj
      obtain ⟨s', hs', hgood⟩ := hprobe 0
      by_contra hnot
      have hkeep := hs'.none j hj (fun hyes => hnot ((hable _ _ j).mp hyes)) 0 (hcnt.symm ▸ hpos)
      have hres := hgood _ (hfirst j hj)
      simp only [Nat.zero_add, add_zero, hcnt] at hkeep
      rw [hkeep] at hres
      exact not_result_noResult (w := ⟨probe 0, grants⟩) (probe_lt 0) 0 hres
    have henough : cfg.chNums.toNat ≤ cfg.read.length := by
      obtain ⟨s', hs', hgood⟩ := hprobe 0
      by_contra hless
      have hlt := Nat.mul_lt_mul_of_pos_right (Nat.lt_of_not_le hless) hpos
      have hkeep := hs'.frame (cfg.read.length * cfg.convCnt.toNat) (.inr (by
        rw [Nat.zero_add, hcnt]))
      have hres := hgood _ hlt
      rw [hkeep] at hres
      exact not_result_noResult (w := ⟨probe 0, grants⟩) (probe_lt 0) 0 hres
    have hsome : ∀ j ch : ℕ, cfg.read[j]? = some ch → cfg.convCnt.toNat < 256 ∧
        cfg.chList.testBit ch = true := by
      intro j ch hj
      obtain ⟨s', hs', hgood⟩ := hprobe ch
      have hlt := (List.getElem?_eq_some_iff.mp hj).1
      obtain ⟨h256, hres⟩ := hs'.some j ch hj ((hable _ _ j).mpr (hcan j hlt))
      obtain ⟨n, hn⟩ := hres 0 (hcnt.symm ▸ hpos)
      have hresult := hgood _ (hfirst j hlt)
      simp only [Nat.zero_add, add_zero, hcnt] at hn h256
      rw [hn] at hresult
      exact ⟨h256, testBit_of_probe hresult⟩
    obtain ⟨ch, hch⟩ : ∃ ch, cfg.read[0]? = some ch :=
      ⟨_, List.getElem?_eq_getElem (lt_of_lt_of_le hpos' henough)⟩
    refine .inr ⟨(hsome 0 ch hch).1, ?_, fun k hk => hcan k (lt_of_lt_of_le hk henough)⟩
    refine AdcCfg.listed_of_read henough fun ch hch => ?_
    obtain ⟨j, hj⟩ := List.getElem?_of_mem hch
    exact (hsome j ch hj).2
  · rintro h conv buff -
    obtain ⟨s', hs'⟩ : ∃ s', readChannels ⟨conv, grants⟩ 256 cfg.read 0 ⟨adc', buff, 0, 0⟩ =
        some s' := by
      by_cases h256 : cfg.convCnt.toNat < 256
      · exact exists_readChannels (hcnt.symm ▸ h256)
      · have hnone : cfg.read = [] := by
          refine eq_nil_of_length_eq_zero (Nat.eq_zero_of_le_zero ?_)
          rcases h with hzero | hok
          · rcases mul_eq_zero.mp hzero with h0 | h0
            · exact h0 ▸ hle
            · omega
          · exact absurd hok.1 h256
        rw [hnone]
        exact ⟨_, rfl⟩
    have hreads := hall hs'
    have hframe := hreads.frame
    simp only [Nat.zero_add, hcnt] at hframe
    refine ⟨256, none, s', (heq conv buff 256).trans (by rw [hs']; rfl), ?_, ?_⟩
    · intro k hk
      exact hframe k (.inr ((Nat.mul_le_mul_right _ hle).trans hk))
    · rintro - k hk
      rcases h with hzero | ⟨h256, hlisted, hcan⟩
      · omega
      obtain ⟨hlength, hmem⟩ := hlisted.read_eq
      have hpos : 0 < cfg.convCnt.toNat := by
        refine Nat.pos_of_ne_zero fun h0 => ?_
        rw [h0, mul_zero] at hk
        exact absurd hk (Nat.not_lt_zero k)
      have hj : k / cfg.convCnt.toNat < cfg.read.length := by
        rw [hlength]
        exact (Nat.div_lt_iff_lt_mul hpos).mpr hk
      obtain ⟨ch, hch⟩ : ∃ ch, cfg.read[k / cfg.convCnt.toNat]? = some ch :=
        ⟨_, List.getElem?_eq_getElem hj⟩
      obtain ⟨-, hres⟩ := hreads.some _ ch hch ((hable _ _ _).mpr (hcan _ (hlength ▸ hj)))
      obtain ⟨n, hn⟩ := hres (k % cfg.convCnt.toNat) (hcnt.symm ▸ Nat.mod_lt _ hpos)
      simp only [Nat.zero_add, hcnt, Nat.div_add_mod'] at hn
      exact ⟨ch, n, hmem ch (mem_of_getElem? hch), hn⟩

/-- The ranks of the channels. -/
theorem rankChannels_rsq {r : ℕ} {s : Adc} :
    (∀ j ch, chs[j]? = some ch → (rankChannels chs r s).rsq (r + j) = ch) ∧
      ∀ k, k < r ∨ r + chs.length ≤ k → (rankChannels chs r s).rsq k = s.rsq k := by
  induction chs generalizing r s with
  | nil => exact ⟨nofun, fun _ _ => rfl⟩
  | cons ch chs ih =>
    obtain ⟨hset, hother⟩ := @ih (r + 1) (adcRoutineChannelConfig r ch ch s)
    refine ⟨?_, ?_⟩
    · rintro (_ | j) ch' hj
      · obtain rfl : ch = ch' := Option.some.inj hj
        exact (hother r (.inl (Nat.lt_succ_self r))).trans (update_self _ _ _)
      · rw [rankChannels, show r + (j + 1) = r + 1 + j by omega]
        exact hset j ch' hj
    · intro k hk
      rw [length_cons] at hk
      rw [rankChannels, hother k (by omega)]
      exact update_of_ne (by omega) _ _

/-- The channels at the ranks are of the list. -/
theorem ranks_iff (hrsq : adc'.rsq = adc.rsq) (hnums : cfg.chNums.toNat ≤ adcDevChnlSum) :
    (∀ k, k < cfg.chNums.toNat → cfg.chList.testBit ((rankChannels cfg.read 0 adc').rsq k) = true) ↔
      cfg.Listed ∨ cfg.chNums.toNat < adcDevChnlSum ∧
        ∀ k, (channels cfg.chList).length ≤ k → k < cfg.chNums.toNat →
          cfg.chList.testBit (adc.rsq k) := by
  obtain ⟨hset, hother⟩ := @rankChannels_rsq cfg.read 0 adc'
  have hle := cfg.length_read_le
  simp only [Nat.zero_add] at hset hother
  by_cases hlisted : cfg.Listed
  · refine iff_of_true ?_ (.inl hlisted)
    intro k hk
    obtain ⟨hlength, hmem⟩ := hlisted.read_eq
    have hget := List.getElem?_eq_getElem (show k < cfg.read.length by omega)
    rw [hset k _ hget]
    exact hmem _ (mem_of_getElem? hget)
  rw [or_iff_right hlisted]
  constructor
  · intro h
    have hlt : cfg.chNums.toNat ≠ adcDevChnlSum := by
      intro hall
      have hread : cfg.read = List.range adcDevChnlSum := if_pos hall
      -- All channels are read then, and so all are of the list.
      refine hlisted (AdcCfg.listed_of_read (by rw [hread, length_range, hall]) ?_)
      intro ch hch
      obtain ⟨j, hj⟩ := List.getElem?_of_mem hch
      have hbit := h j (lt_of_lt_of_le (List.getElem?_eq_some_iff.mp hj).1 hle)
      rwa [hset j ch hj] at hbit
    refine ⟨by omega, ?_⟩
    intro k hk hk'
    have hbit := h k hk'
    rw [hother k (.inr ((AdcCfg.read_of_not_listed hlisted hlt).symm ▸ hk)), hrsq] at hbit
    exact hbit
  · rintro ⟨hlt, hstale⟩ k hk
    have hread := AdcCfg.read_of_not_listed hlisted (by omega)
    by_cases hin : k < cfg.read.length
    · have hget := List.getElem?_eq_getElem hin
      rw [hset k _ hget]
      exact (mem_channels.mp (hread ▸ mem_of_getElem? hget)).2
    · rw [hother k (by omega), hrsq]
      exact hstale k (by rw [← hread]; omega) hk

/-- **All channels with one transfer**, in scan mode. -/
theorem reads_scan_iff (hinit : tklAdcInit portNum cfg adc = (none, adc'))
    (hlen : cfg.chNums.toNat * cfg.convCnt.toNat ≤ len.toNat) (hmode : cfg.mode = .scan) :
    (∀ (conv : ℕ → ℕ → UInt32) (buff : AdcBuff), (∀ n ch, (conv n ch).toNat < 4096) →
      Fills (fun passes => tklAdcReadData ⟨conv, grants⟩ passes portNum len) ⟨adc', buff, 0, 0⟩
        (cfg.chNums.toNat * cfg.convCnt.toNat) (AdcWorld.Result ⟨conv, grants⟩ cfg)) ↔
      cfg.chNums.toNat * cfg.convCnt.toNat = 0 ∨ grants 0 = false ∨
        cfg.chNums.toNat * cfg.convCnt.toNat < 256 ∧
          (cfg.Listed ∨ cfg.chNums.toNat < adcDevChnlSum ∧
            ∀ k, (channels cfg.chList).length ≤ k → k < cfg.chNums.toNat →
              cfg.chList.testBit (adc.rsq k)) := by
  obtain ⟨haccepted, hrsq, -⟩ := tklAdcInit_spec hinit
  rw [← ranks_iff hrsq haccepted.2.1]
  have heq : ∀ conv buff passes, tklAdcReadData ⟨conv, grants⟩ passes portNum len
      ⟨adc', buff, 0, 0⟩ = _ := fun conv buff passes => by
    rw [tklAdcReadData_eq hinit hlen, if_pos hmode]
  by_cases hgrant : grants 0 = true
  swap
  · refine iff_of_true ?_ (.inr (.inl (Bool.eq_false_iff.mpr hgrant)))
    rintro conv buff -
    refine ⟨0, some .mallocFailed, _, (heq conv buff 0).trans (if_neg hgrant), fun _ _ => rfl, nofun⟩
  simp only [if_pos hgrant] at heq
  constructor
  · intro h
    by_cases hzero : cfg.chNums.toNat * cfg.convCnt.toNat = 0
    · exact .inl hzero
    have hpos : 0 < cfg.convCnt.toNat :=
      Nat.pos_of_ne_zero fun h0 => hzero (by rw [h0, mul_zero])
    have hprobe : ∀ ch, cfg.chNums.toNat * cfg.convCnt.toNat < 256 ∧
        ∀ k, k < cfg.chNums.toNat → AdcWorld.Result ⟨probe ch, grants⟩ cfg
          (probe ch (0 + k) ((rankChannels cfg.read 0 adc').rsq (k % cfg.chNums.toNat))) := by
      intro ch
      obtain ⟨passes, status, s', hrun, -, hgood⟩ := h (probe ch) noResult (probe_lt ch)
      obtain ⟨b, hb, hpair⟩ := map_eq_some_iff.mp ((heq _ _ _).symm.trans hrun)
      obtain ⟨rfl, rfl⟩ := Prod.mk.inj hpair
      obtain ⟨h256, rfl⟩ := eq_filled_of_fillLoop hb
      refine ⟨h256, ?_⟩
      intro k hk
      have hle := Nat.le_mul_of_pos_right cfg.chNums.toNat hpos
      have hres := hgood rfl k (by omega)
      dsimp only at hres
      rwa [filled, if_pos (by omega), Nat.sub_zero] at hres
    refine .inr (.inr ⟨(hprobe 0).1, ?_⟩)
    intro k hk
    have hres := (hprobe ((rankChannels cfg.read 0 adc').rsq k)).2 k hk
    rw [Nat.mod_eq_of_lt hk] at hres
    exact testBit_of_probe hres
  · rintro h conv buff -
    have h256 : cfg.chNums.toNat * cfg.convCnt.toNat < 256 := by
      rcases h with hzero | hfalse | hok
      · omega
      · exact absurd (hgrant.symm.trans hfalse) (by decide)
      · exact hok.1
    refine ⟨256, none, _, (heq conv buff 256).trans (by rw [fillLoop_256 h256]; rfl), ?_, ?_⟩
    · intro k hk
      exact if_neg (by omega)
    · rintro - k hk
      dsimp only
      rw [filled, if_pos (by omega)]
      rcases h with hzero | hfalse | hok
      · omega
      · exact absurd (hgrant.symm.trans hfalse) (by decide)
      · have hpos : 0 < cfg.chNums.toNat := by
          refine Nat.pos_of_ne_zero fun h0 => ?_
          rw [h0, zero_mul] at hk
          exact absurd hk (Nat.not_lt_zero k)
        exact ⟨_, _, hok.2 _ (Nat.mod_lt _ hpos), rfl⟩

end Reads

/-! ### Voltages -/

section Voltages

variable {w : AdcWorld} {cfg : AdcCfg} {s : AdcRead} {portNum : ℕ} {len : UInt16} {count : ℕ}

/-- A result of twelve bits in millivolts. -/
theorem toNat_millivolts {v : UInt32} (hv : v.toNat < 4096) :
    (millivolts 12 v).toNat = v.toNat * 3300 / 4095 := by
  have hmax : adcVolMax.toNat = 3300 := rfl
  have hscale : ((1 : UInt32) <<< 12 - 1).toNat = 4095 := by decide
  rw [millivolts, UInt32.toNat_div, UInt32.toNat_mul, hmax, hscale,
    Nat.mod_eq_of_lt (show v.toNat * 3300 < 2 ^ 32 by omega)]

/-- **The voltages are right if the data are.** -/
theorem fills_voltage (hport : portNum ≤ adcDevNum) (hwidth : s.adc.env.width = 12)
    (hconv : ∀ n ch, (w.conv n ch).toNat < 4096) (hlen : count ≤ len.toNat)
    (henv : ∀ passes status s', tklAdcReadData w passes portNum len s = some (status, s') →
      s'.adc.env.width = s.adc.env.width ∧ (status = none → s'.adc.env.count = count))
    (h : Fills (fun passes => tklAdcReadData w passes portNum len) s count (w.Result cfg)) :
    Fills (fun passes => tklAdcReadVoltage w passes portNum len) s count (w.Voltage cfg) := by
  by_cases hzero : len = 0
  · exact ⟨0, some .invalidParm, s, if_pos (.inr hzero), fun _ _ => rfl, nofun⟩
  have hok : ¬ (adcDevNum < portNum ∨ len = 0) := by
    rw [not_or]
    exact ⟨Nat.not_lt_of_le hport, hzero⟩
  obtain ⟨passes, status, s', hrun, hframe, hgood⟩ := h
  obtain ⟨hwidth', hcount⟩ := henv passes status s' hrun
  have heq : tklAdcReadVoltage w passes portNum len s = some (match (status, s') with
      | (some rt, s) => (some rt, s)
      | (none, s) => (none, { s with
          buff := fun i =>
            if i < min s.adc.env.count len.toNat then millivolts s.adc.env.width (s.buff i)
            else s.buff i })) := by
    rw [tklAdcReadVoltage, if_neg hok]
    dsimp only at hrun
    rw [hrun]
    rfl
  cases status with
  | some rt => exact ⟨passes, some rt, s', heq, hframe, nofun⟩
  | none =>
    have hmin : min s'.adc.env.count len.toNat = count := by
      rw [hcount rfl]
      exact min_eq_left hlen
    refine ⟨passes, none, _, heq, ?_, ?_⟩
    · intro k hk
      dsimp only
      rw [hmin, if_neg (Nat.not_lt_of_le hk)]
      exact hframe k hk
    · rintro - k hk
      dsimp only
      rw [hmin, if_pos hk, hwidth', hwidth]
      obtain ⟨ch, n, hbit, hval⟩ := hgood rfl k hk
      have hlt : (s'.buff k).toNat < 4096 := hval ▸ hconv n ch
      have hvolt := toNat_millivolts hlt
      exact ⟨s'.buff k, ⟨ch, n, hbit, hval⟩, hvolt, by omega⟩

end Voltages

/-! ### Both reads -/

section Main

variable {grants : ℕ → Bool} {cfg : AdcCfg} {adc adc' : Adc} {portNum : ℕ} {len : UInt16}

/-- A call leaves the configuration. -/
theorem env_tklAdcReadData {w : AdcWorld} {passes : ℕ} {buff : AdcBuff} {status : Option OprtErr}
    {s' : AdcRead} (hinit : tklAdcInit portNum cfg adc = (none, adc'))
    (hlen : cfg.chNums.toNat * cfg.convCnt.toNat ≤ len.toNat)
    (h : tklAdcReadData w passes portNum len ⟨adc', buff, 0, 0⟩ = some (status, s')) :
    s'.adc.env = adc'.env := by
  have hrank : ∀ (chs : List ℕ) (r : ℕ) (s : Adc), (rankChannels chs r s).env = s.env := by
    intro chs
    induction chs with
    | nil => exact fun _ _ => rfl
    | cons ch chs ih => exact fun r s => (ih (r + 1) _).trans rfl
  obtain ⟨-, -, -, hmode, -⟩ := tklAdcInit_spec hinit
  rw [tklAdcReadData_eq hinit hlen] at h
  split_ifs at h with hscan hgrant
  · obtain ⟨b, -, hpair⟩ := map_eq_some_iff.mp h
    obtain ⟨rfl, rfl⟩ := Prod.mk.inj hpair
    exact hrank _ _ _
  · obtain ⟨rfl, rfl⟩ := Prod.mk.inj (Option.some.inj h)
    rfl
  · obtain ⟨s'', hrun, hpair⟩ := map_eq_some_iff.mp h
    obtain ⟨rfl, rfl⟩ := Prod.mk.inj hpair
    exact (readAll (hmode.symm ▸ hscan) hrun).env

/-- What the reads can do, written for the two ways apart. -/
theorem AdcCfg.readable_iff {rsq : ℕ → ℕ} (hmode : cfg.mode ≠ .scan) :
    cfg.Readable grants rsq ↔ cfg.convCnt.toNat < 256 ∧ cfg.Listed ∧
      ∀ k, k < cfg.chNums.toNat → cfg.mode = .single ∨ grants k = true := by
  rw [Readable]
  cases hm : cfg.mode with
  | scan => exact absurd hm hmode
  | single =>
    exact and_congr_right fun _ => (and_iff_left fun _ _ => .inl rfl).symm
  | continuous =>
    refine and_congr_right fun _ => and_congr_right fun _ => forall₂_congr fun k _ => ?_
    exact (or_iff_right (by decide)).symm

/-- **The reads are right** exactly for configurations that are refused or that have nothing to
convert, and for those with counters that fit and with channels and memory enough. -/
theorem adcRight_iff (grants : ℕ → Bool) (cfg : AdcCfg) {adc : Adc} (portNum : ℕ) {len : UInt16}
    (hwidth : adc.env.width = 12) (hlen : cfg.chNums.toNat * cfg.convCnt.toNat ≤ len.toNat) :
    AdcRight grants cfg adc portNum len ↔
      ¬ cfg.Accepted portNum ∨ cfg.chNums.toNat * cfg.convCnt.toNat = 0 ∨
        cfg.Readable grants adc.rsq := by
  by_cases haccepted : cfg.Accepted portNum
  swap
  · refine iff_of_true ?_ (.inl haccepted)
    intro adc' hinit
    exact absurd (tklAdcInit_spec hinit).1 haccepted
  obtain ⟨adc', hinit⟩ : ∃ adc', tklAdcInit portNum cfg adc = (none, adc') := by
    rw [tklAdcInit, if_neg]
    · exact ⟨_, rfl⟩
    · rintro (h | h | h)
      · exact absurd haccepted.1 (Nat.not_le_of_lt h)
      · exact absurd haccepted.2.1 (Nat.not_le_of_lt h)
      · exact haccepted.2.2 h
  have hdata : AdcRight grants cfg adc portNum len ↔
      ∀ (conv : ℕ → ℕ → UInt32) (buff : AdcBuff), (∀ n ch, (conv n ch).toNat < 4096) →
        Fills (fun passes => tklAdcReadData ⟨conv, grants⟩ passes portNum len) ⟨adc', buff, 0, 0⟩
          (cfg.chNums.toNat * cfg.convCnt.toNat) (AdcWorld.Result ⟨conv, grants⟩ cfg) := by
    constructor
    · intro h conv buff hconv
      exact (h adc' hinit conv buff hconv).1
    · intro h adc'' hinit' conv buff hconv
      obtain rfl : adc' = adc'' := congrArg Prod.snd (hinit.symm.trans hinit')
      refine ⟨h conv buff hconv, fills_voltage haccepted.1 ?_ hconv hlen ?_ (h conv buff hconv)⟩
      · exact (tklAdcInit_spec hinit).2.2.1.trans hwidth
      · intro passes status s' hrun
        have henv := env_tklAdcReadData hinit hlen hrun
        obtain ⟨-, -, -, -, hcnt, hnums, -⟩ := tklAdcInit_spec hinit
        exact ⟨by rw [henv], fun _ => by rw [henv, AdcEnv.count, hcnt, hnums]⟩
  rw [hdata, or_iff_right (not_not_intro haccepted)]
  by_cases hmode : cfg.mode = .scan
  · rw [reads_scan_iff hinit hlen hmode, AdcCfg.Readable, hmode]
  · rw [reads_channels_iff hinit hlen hmode, AdcCfg.readable_iff hmode]

/-- Two conversions of the channels 0 and 2, in single mode. -/
def twoChannels : AdcCfg := ⟨5, 2, .single, 2, 0⟩

/-- The variable and the registers at the start. -/
def adcStart : Adc := ⟨⟨0, 0, 12, 0, .single, 0⟩, fun _ => 0, fun _ => 0⟩

theorem adcRight_iff_twoChannels : AdcRight (fun _ => false) twoChannels adcStart 0 4 :=
  (adcRight_iff (fun _ => false) twoChannels 0 rfl (by decide)).mpr
    (.inr (.inr ⟨by decide, show 2 ≤ _ by decide⟩))

/-- 256 conversions of one channel. -/
def manyConversions : AdcCfg := ⟨1, 1, .single, 256, 0⟩

/-- The loop over them never ends. -/
theorem not_adcRight_manyConversions :
    ¬ AdcRight (fun _ => true) manyConversions adcStart 0 256 := by
  intro h
  have hinit : tklAdcInit 0 manyConversions adcStart =
      (none, (tklAdcInit 0 manyConversions adcStart).2) := rfl
  obtain ⟨passes, status, s', hrun, -⟩ :=
    (h _ hinit (fun _ _ => 0) (fun _ => 0) (fun _ _ => by decide)).1
  dsimp only at hrun
  rw [tklAdcReadData_eq hinit (by decide), if_neg (by decide)] at hrun
  obtain ⟨s'', hrun', -⟩ := map_eq_some_iff.mp hrun
  have hread : manyConversions.read[0]? = some 0 := by decide
  exact absurd ((readAll (by decide) hrun').some 0 0 hread (.inl rfl)).1 (by decide)

end Main

end Gd32.Tkl
