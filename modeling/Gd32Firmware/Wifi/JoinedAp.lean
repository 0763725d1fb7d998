import Gd32Firmware.Lib.LittleEndian
import Gd32Firmware.Util.CString

/-!
# The access point that is remembered

When a link is up and automatic connection is on, `wifi_netlink_joined_ap_store` puts the name and
the passphrase of the access point into the flash, with the channel and the address;
`wifi_netlink_joined_ap_load` brings them back into the configuration of the station, from which
the next scan starts. The record holds both with their lengths, and so does the configuration, but
`wifi_netlink_scan_set_with_ssid` and `wifi_netlink_candidate_ap_find` read the name as a string.

The loader copies as many bytes as the length says and no terminator.
`Wifi.JoinedAp.roundTrips_iff` says what comes of it: the configuration is the one stored if
what it held before has zeros right where the name and the passphrase end.
-/

namespace Gd32

open List Option

variable {n : ℕ} {cfg : StaCfg}

namespace Wifi

namespace JoinedAp

/-! ### Arrays of bytes -/

/-- An array of `n` bytes. -/
structure Field (n : ℕ) where
  bytes : List UInt8
  length_eq : bytes.length = n

/-- An array of zeros. -/
def Field.zero (n : ℕ) : Field n := ⟨List.replicate n 0, length_replicate⟩

/-- `sys_memcpy(dst, src, len)` into an array; `none` if there is not so much in either of them. -/
def Field.copy {n : ℕ} (dst : Field n) (src : List UInt8) (len : ℕ) : Option (Field n) :=
  if h : len ≤ n ∧ len ≤ src.length then
    some ⟨src.take len ++ dst.bytes.drop len, by
      have := dst.length_eq
      simp only [length_append, length_take, length_drop]
      omega⟩
  else none

/-- The bytes of an array from `i` on. -/
def Field.sub {n : ℕ} (f : Field n) (i k : ℕ) (h : i + k ≤ n) : Field k :=
  ⟨(f.bytes.drop i).take k, by
    have := f.length_eq
    simp only [length_take, length_drop]
    omega⟩

@[simp] theorem Field.bytes_sub (f : Field n) (i k : ℕ) (h : i + k ≤ n) :
    (f.sub i k h).bytes = (f.bytes.drop i).take k := rfl

theorem Field.ext_bytes {f g : Field n} (h : f.bytes = g.bytes) : f = g := by
  cases f
  cases g
  cases h
  rfl

theorem Field.copy_eq (dst : Field n) (src : List UInt8) {len : ℕ} (hn : len ≤ n)
    (hs : len ≤ src.length) :
    ∃ f, dst.copy src len = some f ∧ f.bytes = src.take len ++ dst.bytes.drop len :=
  ⟨_, dif_pos ⟨hn, hs⟩, rfl⟩

/-- What has been copied in front of an array is a string if the array has a zero behind it. -/
theorem fieldString_copied {src : List UInt8} (old : List UInt8) (hz : 0 ∉ src.take n)
    (hold : n < old.length) :
    fieldString (src.take n ++ old.drop n) = src.take n ↔ old[n]? = some 0 := by
  have hall : ∀ b ∈ src.take n, (fun b : UInt8 => decide (b ≠ 0)) b = true := by
    intro b hb
    have hne : b ≠ 0 := fun h => hz (h ▸ hb)
    simpa using hne
  rw [fieldString, takeWhile_append_of_pos hall, drop_eq_getElem_cons hold,
    List.getElem?_eq_getElem hold]
  by_cases h0 : old[n] = 0
  · simp [h0]
  · rw [takeWhile_cons_of_pos (by simp [h0])]
    simp [h0]

/-! ### The configuration and the record -/

/-- What of `struct sta_cfg` is stored and loaded. -/
structure StaCfg where
  ssid : Field 33
  ssidLen : UInt8
  channel : UInt8
  passphrase : Field 64
  passphraseLen : UInt8

/-- What of `struct wifi_sta` is loaded. -/
structure Sta where
  cfg : StaCfg
  historyIp : UInt32

/-- `struct mac_ssid`. -/
structure MacSsid where
  length : UInt8
  array : Field 33

/-- `struct key_info`. -/
structure KeyInfo where
  length : UInt8
  array : Field 64

/-- `struct auto_conn_info`. -/
structure AutoConnInfo where
  ipAddr : UInt32
  channel : UInt8
  ssid : MacSsid
  key : KeyInfo

/-- `sizeof(struct auto_conn_info)`; its fields leave no gap. -/
def sizeofInfo : ℕ := 104

/-- The bytes of the structure in memory. -/
def AutoConnInfo.bytes (info : AutoConnInfo) : List UInt8 :=
  LittleEndian.bytes 4 info.ipAddr.toNat ++ [info.channel] ++
    (info.ssid.length :: info.ssid.array.bytes) ++ (info.key.length :: info.key.array.bytes)

/-- The structure in some bytes of memory. -/
def AutoConnInfo.ofBytes (f : Field sizeofInfo) : AutoConnInfo where
  ipAddr := UInt32.ofNat (LittleEndian.value (f.bytes.take 4))
  channel := f.bytes.getD 4 0
  ssid := ⟨f.bytes.getD 5 0, f.sub 6 33 (by decide)⟩
  key := ⟨f.bytes.getD 39 0, f.sub 40 64 (by decide)⟩

/-! ### Storing and loading -/

/-- `wifi_netlink_joined_ap_store`: the bytes handed to `nvds_data_put`, where `info` is what the
stack holds before; `none` if a copy leaves its array. -/
def wifiNetlinkJoinedApStore (info : AutoConnInfo) (cfg : StaCfg) (ip : UInt32) :
    Option (List UInt8) :=
  (info.ssid.array.copy cfg.ssid.bytes cfg.ssidLen.toNat).bind fun ssid =>
  (info.key.array.copy cfg.passphrase.bytes cfg.passphraseLen.toNat).bind fun key =>
    let info : AutoConnInfo := ⟨ip, cfg.channel, ⟨cfg.ssidLen, ssid⟩, ⟨cfg.passphraseLen, key⟩⟩
    some (info.bytes.take (4 + 1 + 34 + cfg.passphraseLen.toNat + 1))

/-- The lengths that the loader accepts. -/
def lengthsOk (ssidLen keyLen : UInt8) : Bool :=
  !(ssidLen = 0 || 32 < ssidLen || 63 < keyLen || (keyLen < 8 && keyLen ≠ 0 && keyLen ≠ 5))

/-- `wifi_netlink_joined_ap_load`, where `get` is the answer of `nvds_data_get`: an error, or the
bytes it has written over `info`. -/
def wifiNetlinkJoinedApLoad (get : Except ℤ (List UInt8)) (sta : Sta) : Option (ℤ × Sta) :=
  match get with
  | .error ret => some (ret, sta)
  | .ok data =>
    ((Field.zero sizeofInfo).copy data data.length).bind fun f =>
      let info := AutoConnInfo.ofBytes f
      if !lengthsOk info.ssid.length info.key.length then some (-1, sta) else
      (sta.cfg.ssid.copy info.ssid.array.bytes info.ssid.length.toNat).bind fun ssid =>
      (sta.cfg.passphrase.copy info.key.array.bytes info.key.length.toNat).bind fun passphrase =>
        some (0, ⟨⟨ssid, info.ssid.length, info.channel, passphrase, info.key.length⟩, info.ipAddr⟩)

/-! ### The record -/

/-- The structure is in its bytes. -/
theorem AutoConnInfo.ofBytes_bytes {info : AutoConnInfo} {f : Field sizeofInfo}
    (hf : f.bytes = info.bytes) : AutoConnInfo.ofBytes f = info := by
  obtain ⟨ip, channel, ⟨sl, ⟨ssid, hssid⟩⟩, ⟨kl, ⟨key, hkey⟩⟩⟩ := info
  have hle : (LittleEndian.bytes 4 ip.toNat).length = 4 := LittleEndian.length_bytes 4 _
  obtain ⟨a, b, c, d, habcd⟩ : ∃ a b c d, LittleEndian.bytes 4 ip.toNat = [a, b, c, d] :=
    length_eq_four.mp hle
  have hval : LittleEndian.value [a, b, c, d] = ip.toNat := by
    rw [← habcd]
    exact LittleEndian.value_bytes (by have := ip.toNat_lt; norm_num; omega)
  have hbytes : f.bytes = a :: b :: c :: d :: channel :: sl :: (ssid ++ kl :: key) := by
    rw [hf, AutoConnInfo.bytes, habcd]
    simp
  have hdrop : (ssid ++ kl :: key).drop 33 = kl :: key := by
    rw [← hssid, drop_left]
  have htake : (ssid ++ kl :: key).take 33 = ssid := by
    rw [← hssid, take_left]
  have hkl : (f.bytes.drop 39) = kl :: key := by
    rw [hbytes]
    exact hdrop
  rw [AutoConnInfo.ofBytes, AutoConnInfo.mk.injEq, MacSsid.mk.injEq, KeyInfo.mk.injEq]
  refine ⟨?_, ?_, ⟨?_, Field.ext_bytes ?_⟩, ⟨?_, Field.ext_bytes ?_⟩⟩
  · rw [hbytes, take_succ_cons, take_succ_cons, take_succ_cons,
      take_succ_cons, take_zero, hval, UInt32.ofNat_toNat]
  · rw [hbytes]
    rfl
  · rw [hbytes]
    rfl
  · rw [Field.bytes_sub, hbytes]
    exact htake
  · rw [getD_eq_getElem?_getD, show f.bytes[39]? = (f.bytes.drop 39)[0]? by simp, hkl]
    rfl
  · have h40 : f.bytes.drop 40 = key := by
      rw [show 40 = 39 + 1 from rfl, ← drop_drop, hkl]
      rfl
    rw [Field.bytes_sub, h40, take_of_length_le hkey.le]

/-- What is put: everything in front of the key, and as many bytes of the key as it has. -/
theorem store_eq (info : AutoConnInfo) (ip : UInt32)
    (hs : cfg.ssidLen.toNat ≤ 32) (hk : cfg.passphraseLen.toNat ≤ 63) :
    ∃ ssid : Field 33, ssid.bytes = cfg.ssid.bytes.take cfg.ssidLen.toNat ++
        info.ssid.array.bytes.drop cfg.ssidLen.toNat ∧
      wifiNetlinkJoinedApStore info cfg ip = some (LittleEndian.bytes 4 ip.toNat ++
        [cfg.channel] ++ (cfg.ssidLen :: ssid.bytes) ++
        (cfg.passphraseLen :: cfg.passphrase.bytes.take cfg.passphraseLen.toNat)) := by
  have hsl := cfg.ssid.length_eq
  have hkl := cfg.passphrase.length_eq
  obtain ⟨ssid, hssid, hsb⟩ := Field.copy_eq info.ssid.array cfg.ssid.bytes
    (show cfg.ssidLen.toNat ≤ 33 by omega) (by omega)
  obtain ⟨key, hkey, hkb⟩ := Field.copy_eq info.key.array cfg.passphrase.bytes
    (show cfg.passphraseLen.toNat ≤ 64 by omega) (by omega)
  refine ⟨ssid, hsb, ?_⟩
  have hlen : (LittleEndian.bytes 4 ip.toNat ++ [cfg.channel] ++
      (cfg.ssidLen :: ssid.bytes)).length = 39 := by
    simp [ssid.length_eq]
  rw [wifiNetlinkJoinedApStore, hssid, hkey, bind_some, bind_some]
  dsimp only [AutoConnInfo.bytes]
  rw [take_append, hlen, take_of_length_le (by omega), hkb,
    show 4 + 1 + 34 + cfg.passphraseLen.toNat + 1 - 39 = cfg.passphraseLen.toNat + 1 by omega,
    take_succ_cons, take_left' (by rw [length_take]; omega)]

/-! ### Loading what has been stored -/

/-- The name. -/
def StaCfg.ssidBytes (cfg : StaCfg) : List UInt8 := cfg.ssid.bytes.take cfg.ssidLen.toNat

/-- The passphrase. -/
def StaCfg.passphraseBytes (cfg : StaCfg) : List UInt8 :=
  cfg.passphrase.bytes.take cfg.passphraseLen.toNat

/-- The lengths of the name and the passphrase of a network. -/
def LengthsFit (ssidLen keyLen : ℕ) : Prop :=
  (1 ≤ ssidLen ∧ ssidLen ≤ 32) ∧ (keyLen = 0 ∨ keyLen = 5 ∨ 8 ≤ keyLen ∧ keyLen ≤ 63)

/-- A configuration with a name and a passphrase, none of which has a zero in it. -/
structure StaCfg.Joined (cfg : StaCfg) : Prop where
  lengths : LengthsFit cfg.ssidLen.toNat cfg.passphraseLen.toNat
  ssid_ne_zero : 0 ∉ cfg.ssidBytes
  passphrase_ne_zero : 0 ∉ cfg.passphraseBytes

theorem lengthsOk_iff (ssidLen keyLen : UInt8) :
    lengthsOk ssidLen keyLen = true ↔ LengthsFit ssidLen.toNat keyLen.toNat := by
  simp only [lengthsOk, LengthsFit, Bool.not_eq_true', Bool.or_eq_false_iff,
    Bool.and_eq_false_iff, decide_eq_false_iff_not, ne_eq, not_not, UInt8.lt_iff_toNat_lt,
    ← UInt8.toNat_inj, UInt8.reduceToNat]
  omega

/-- The configuration after a store and a load: the name and the passphrase in front of what the
arrays held before. -/
theorem load_store (info : AutoConnInfo) (ip : UInt32)
    (hfit : LengthsFit cfg.ssidLen.toNat cfg.passphraseLen.toNat) (sta : Sta) :
    ∃ data ssid passphrase, wifiNetlinkJoinedApStore info cfg ip = some data ∧
      wifiNetlinkJoinedApLoad (.ok data) sta =
        some (0, ⟨⟨ssid, cfg.ssidLen, cfg.channel, passphrase, cfg.passphraseLen⟩, ip⟩) ∧
      ssid.bytes = cfg.ssidBytes ++ sta.cfg.ssid.bytes.drop cfg.ssidLen.toNat ∧
      passphrase.bytes =
        cfg.passphraseBytes ++ sta.cfg.passphrase.bytes.drop cfg.passphraseLen.toNat := by
  have hok := (lengthsOk_iff cfg.ssidLen cfg.passphraseLen).mpr hfit
  obtain ⟨⟨-, hs⟩, hkl⟩ := hfit
  have hk : cfg.passphraseLen.toNat ≤ 63 := by omega
  have hsl := cfg.ssid.length_eq
  have hpl := cfg.passphrase.length_eq
  obtain ⟨ssid, hssid, hput⟩ := store_eq info ip hs hk
  -- the part of the key that is not in the flash is zero in what the loader reads
  obtain ⟨key, hkey⟩ : ∃ key : Field 64, key.bytes = cfg.passphraseBytes ++
      List.replicate (64 - cfg.passphraseLen.toNat) 0 :=
    ⟨⟨_, by simp only [StaCfg.passphraseBytes, length_append, length_take,
      length_replicate]; omega⟩, rfl⟩
  have hzero : ∀ n, (List.replicate n (0 : UInt8)).drop (40 + cfg.passphraseLen.toNat) =
      List.replicate (n - (40 + cfg.passphraseLen.toNat)) 0 := fun n => drop_replicate ..
  have hlen : (LittleEndian.bytes 4 ip.toNat ++ [cfg.channel] ++ (cfg.ssidLen :: ssid.bytes) ++
      (cfg.passphraseLen :: cfg.passphrase.bytes.take cfg.passphraseLen.toNat)).length =
      40 + cfg.passphraseLen.toNat := by
    simp only [length_append, length_cons, length_nil, length_take,
      LittleEndian.length_bytes, ssid.length_eq, hpl]
    omega
  obtain ⟨f, hf, hfb⟩ := Field.copy_eq (Field.zero sizeofInfo) _
    (hlen.le.trans (by rw [sizeofInfo]; omega)) le_rfl
  have hread : AutoConnInfo.ofBytes f =
      ⟨ip, cfg.channel, ⟨cfg.ssidLen, ssid⟩, ⟨cfg.passphraseLen, key⟩⟩ := by
    refine AutoConnInfo.ofBytes_bytes ?_
    rw [hfb, take_length, hlen, Field.zero, hzero, AutoConnInfo.bytes, hkey,
      StaCfg.passphraseBytes, show sizeofInfo - (40 + cfg.passphraseLen.toNat) =
        64 - cfg.passphraseLen.toNat by rw [sizeofInfo]; omega]
    simp only [append_assoc, cons_append]
  have hkeyl := key.length_eq
  have hssidl := ssid.length_eq
  obtain ⟨ssid', hssid', hsb⟩ := Field.copy_eq sta.cfg.ssid ssid.bytes
    (show cfg.ssidLen.toNat ≤ 33 by omega) (by omega)
  obtain ⟨pass', hpass', hpb⟩ := Field.copy_eq sta.cfg.passphrase key.bytes
    (show cfg.passphraseLen.toNat ≤ 64 by omega) (by omega)
  refine ⟨_, ssid', pass', hput, ?_, ?_, ?_⟩
  · rw [wifiNetlinkJoinedApLoad, hf, bind_some]
    dsimp only
    rw [hread]
    rw [hok, Bool.not_true, if_neg Bool.false_ne_true, hssid', bind_some, hpass',
      bind_some]
  · rw [hsb, hssid, take_append_of_le_length (by rw [length_take]; omega),
      take_take, min_self, StaCfg.ssidBytes]
  · rw [hpb, hkey, take_append_of_le_length (by
      rw [StaCfg.passphraseBytes, length_take]; omega), StaCfg.passphraseBytes,
      take_take, min_self]

/-- What is expected of a configuration that has been loaded: the name and the passphrase are those
stored, by their lengths and as strings. -/
structure Remembered (cfg : StaCfg) (ip : UInt32) (sta : Sta) : Prop where
  ssidLen : sta.cfg.ssidLen = cfg.ssidLen
  passphraseLen : sta.cfg.passphraseLen = cfg.passphraseLen
  channel : sta.cfg.channel = cfg.channel
  ssidBytes : sta.cfg.ssidBytes = cfg.ssidBytes
  passphraseBytes : sta.cfg.passphraseBytes = cfg.passphraseBytes
  ssidString : fieldString sta.cfg.ssid.bytes = cfg.ssidBytes
  passphraseString : fieldString sta.cfg.passphrase.bytes = cfg.passphraseBytes
  historyIp : sta.historyIp = ip

/-- The arrays of the configuration have their terminators where the name and the passphrase
end. -/
def Terminated (cfg : StaCfg) (old : Sta) : Prop :=
  old.cfg.ssid.bytes[cfg.ssidLen.toNat]? = some 0 ∧
    old.cfg.passphrase.bytes[cfg.passphraseLen.toNat]? = some 0

/-- A store and a load, and the configuration is the one stored. -/
def RoundTrips (info : AutoConnInfo) (cfg : StaCfg) (ip : UInt32) (old : Sta) : Prop :=
  ∃ data new, wifiNetlinkJoinedApStore info cfg ip = some data ∧
    wifiNetlinkJoinedApLoad (.ok data) old = some (0, new) ∧ Remembered cfg ip new

/-- What a load leaves is the configuration stored if the arrays had their terminators. -/
theorem remembered_iff (hcfg : cfg.Joined) {ip : UInt32} {old : Sta}
    {ssid : Field 33} {passphrase : Field 64}
    (hs : ssid.bytes = cfg.ssidBytes ++ old.cfg.ssid.bytes.drop cfg.ssidLen.toNat)
    (hp : passphrase.bytes =
      cfg.passphraseBytes ++ old.cfg.passphrase.bytes.drop cfg.passphraseLen.toNat) :
    Remembered cfg ip ⟨⟨ssid, cfg.ssidLen, cfg.channel, passphrase, cfg.passphraseLen⟩, ip⟩ ↔
      Terminated cfg old := by
  obtain ⟨⟨⟨-, hsl⟩, hpl⟩, hs0, hp0⟩ := hcfg
  have hs33 := cfg.ssid.length_eq
  have hp64 := cfg.passphrase.length_eq
  have hstring := fieldString_copied old.cfg.ssid.bytes hs0
    (by rw [old.cfg.ssid.length_eq]; omega)
  have hpstring := fieldString_copied old.cfg.passphrase.bytes hp0
    (by rw [old.cfg.passphrase.length_eq]; omega)
  constructor
  · intro h
    have hss := h.ssidString
    have hps := h.passphraseString
    rw [hs] at hss
    rw [hp] at hps
    exact ⟨hstring.mp hss, hpstring.mp hps⟩
  · rintro ⟨hsz, hpz⟩
    refine ⟨rfl, rfl, rfl, ?_, ?_, ?_, ?_, rfl⟩
    · rw [StaCfg.ssidBytes]
      dsimp only
      rw [hs, take_left' (by rw [StaCfg.ssidBytes, length_take]; omega)]
    · rw [StaCfg.passphraseBytes]
      dsimp only
      rw [hp, take_left' (by rw [StaCfg.passphraseBytes, length_take]; omega)]
    · rw [hs]
      exact hstring.mpr hsz
    · rw [hp]
      exact hpstring.mpr hpz

/-! ### What is remembered -/

/-- **The access point comes back as it was stored if and only if the arrays of the configuration
had zeros where its name and its passphrase end.** -/
theorem roundTrips_iff (info : AutoConnInfo) {cfg : StaCfg} (hcfg : cfg.Joined) (ip : UInt32)
    (old : Sta) : RoundTrips info cfg ip old ↔ Terminated cfg old := by
  obtain ⟨data, ssid, passphrase, hput, hget, hs, hp⟩ := load_store info ip hcfg.lengths old
  rw [← remembered_iff hcfg hs hp]
  constructor
  · rintro ⟨data', new, hput', hget', hnew⟩
    cases hput.symm.trans hput'
    cases hget.symm.trans hget'
    exact hnew
  · exact fun h => ⟨data, _, hput, hget, h⟩

/-- An array with a string in front and zeros behind it. -/
def Field.string (n : ℕ) (bs : List UInt8) : Field n :=
  ⟨(bs ++ List.replicate n 0).take n, by simp⟩

/-- The network `ab`, without a passphrase. -/
def ab : StaCfg := ⟨Field.string 33 [97, 98], 2, 6, Field.string 64 [], 0⟩

/-- A station that was configured for the network `abcd`. -/
def oldAbcd : Sta := ⟨⟨Field.string 33 [97, 98, 99, 100], 4, 1, Field.string 64 [], 0⟩, 0⟩

/-- A stack of zeros. -/
def zeroInfo : AutoConnInfo := ⟨0, 0, ⟨0, Field.zero 33⟩, ⟨0, Field.zero 64⟩⟩

theorem joined_ab : ab.Joined := by
  refine ⟨?_, by decide, by decide⟩
  rw [LengthsFit]
  decide

theorem roundTrips_ab :
    ab.Joined ∧ (RoundTrips zeroInfo ab 7 ⟨ab, 0⟩ ↔ Terminated ab ⟨ab, 0⟩) :=
  ⟨joined_ab, roundTrips_iff zeroInfo joined_ab 7 ⟨ab, 0⟩⟩

/-- The loaded name is `abcd` with the length of `ab`. -/
theorem not_roundTrips_oldAbcd : ¬ ∀ (info : AutoConnInfo) (cfg : StaCfg), cfg.Joined →
    ∀ (ip : UInt32) (old : Sta), RoundTrips info cfg ip old := by
  intro hall
  obtain ⟨data, ssid, passphrase, hput, hget, hs, hp⟩ :=
    load_store zeroInfo 7 joined_ab.lengths oldAbcd
  obtain ⟨data', new, hput', hget', hnew⟩ := hall zeroInfo ab joined_ab 7 oldAbcd
  cases hput.symm.trans hput'
  cases hget.symm.trans hget'
  exact absurd ((remembered_iff joined_ab hs hp).mp hnew).1 (by decide)

end JoinedAp

end Wifi

end Gd32
