import Gd32Firmware.App.CmdParams
import Mathlib.Data.Nat.Digits.Defs

/-!
# Addresses on the command line

`cli_parse_ip4` reads an address and a mask off a text by cutting it in place, first at the slash
and then at the dots. Each piece is looked through for other characters than digits before `atoi`
reads it, and an empty piece passes for the number zero. The mask is a shift by the number behind
the slash, which for 32 is a shift by the width of the type.

`cliParseIp4_right_iff` says which texts are taken for what they are.
-/

namespace Gd32.App

open List Option UInt32

/-! ### The functions -/

/-- `atoi`, of a string; a number that an `int` does not hold gives the closest one that it does. -/
def atoiClamped (s : List UInt8) : ℤ :=
  let n : ℤ := match s.dropWhile isSpace with
    | 45 :: t => -(decimal (t.takeWhile isDigit))
    | 43 :: t => decimal (t.takeWhile isDigit)
    | t => decimal (t.takeWhile isDigit)
  max (-2 ^ 31) (min n (2 ^ 31 - 1))

/-- `check_is_num`, which returns if it does not hold. -/
def checkIsNum (buf : List UInt8) (p : ℕ) : Bool := (strAt buf p).all isDigit

/-- `atoi`, stored in a `uint32_t`. -/
def atoiAt (buf : List UInt8) (p : ℕ) : UInt32 := UInt32.ofInt (atoiClamped (strAt buf p))

/-- The loop of `cli_parse_ip4`, with `4 - i` passes to go: what is returned, and `*ip`. -/
def ip4Loop : ℕ → UInt32 → List UInt8 → ℕ → ℤ × UInt32
  | 0, ip, _, _ => (0, ip)
  | n + 1, ip, buf, str =>
    -- in the last pass nothing is cut, and `token` is where `str` is
    match if n = 0 then some (buf, str)
      else (strchr buf str 46).map fun token => (buf.set token 0, token + 1) with
    | none => (-1, ip)
    | some (buf, token) =>
      if !checkIsNum buf str then (-1, ip)
      else if atoiAt buf str > 255 then (-1, ip)
      else ip4Loop n (ip + (atoiAt buf str <<< (UInt32.ofNat (3 - n) * 8))) buf token

/-- What `cli_parse_ip4` returns and leaves. -/
structure Ip4Result where
  ret : ℤ
  ip : UInt32
  /-- `*mask`, if there is a place for it. -/
  mask : Option UInt32

/-- The part of `cli_parse_ip4` behind the mask. -/
def ip4Part (buf : List UInt8) (mask : Option UInt32) : Ip4Result :=
  let r := ip4Loop 4 0 buf 0
  ⟨r.1, r.2, mask⟩

/-- `cli_parse_ip4`, of the text at the start of a buffer; `ip` and `mask` are what is in their
places, and without a place for the mask it is not looked for. -/
def cliParseIp4 (buf : List UInt8) (ip : UInt32) (mask : Option UInt32) : Ip4Result :=
  match mask with
  | none => ip4Part buf none
  | some mask =>
    match strchr buf 0 47 with
    | none => ip4Part buf (some 0xffffffff)
    | some token =>
      let buf := buf.set token 0
      if !checkIsNum buf (token + 1) then ⟨-1, ip, some mask⟩
      else
        let a := atoiAt buf (token + 1)
        if a = 0 ∨ a > 32 then ⟨-1, ip, some mask⟩ else ip4Part buf (some ((1 <<< a) - 1))

/-! ### Addresses -/

/-- A decimal number that is not larger than a bound, without a look at whether there is a digit. -/
def DigitsUpTo (bound : ℕ) (d : List UInt8) : Prop := (∀ c ∈ d, isDigit c) ∧ decimal d ≤ bound

instance (bound : ℕ) (d : List UInt8) : Decidable (DigitsUpTo bound d) :=
  inferInstanceAs (Decidable (_ ∧ _))

/-- A text `d.d.d.d` or `d.d.d.d/n`, in which there may be nothing for a `d`. -/
structure Ip4Text where
  fields : List (List UInt8)
  four : fields.length = 4
  fields_ok : ∀ d ∈ fields, DigitsUpTo 255 d
  /-- The number behind the slash, if there is one. -/
  bits : Option (List UInt8)
  bits_ok : ∀ b ∈ bits, DigitsUpTo 32 b ∧ 0 < decimal b

namespace Ip4Text

/-- The text. -/
def text (t : Ip4Text) : List UInt8 :=
  [46].intercalate t.fields ++ t.bits.elim [] (47 :: ·)

/-- The address, the first number as the least significant byte. -/
def addr (t : Ip4Text) : ℕ := Nat.ofDigits 256 (t.fields.map decimal)

/-- How many bits of the mask are set. -/
def maskBits (t : Ip4Text) : ℕ := t.bits.elim 32 decimal

/-- All numbers are there. -/
def Full (t : Ip4Text) : Prop := ∀ d ∈ t.fields, d ≠ []

end Ip4Text

/-- The text is taken for what it is: it gives the address and the mask if it is one, and `-1` if
it is not. -/
def Ip4Right (s : List UInt8) (r : Ip4Result) : Prop :=
  (∀ t : Ip4Text, t.text = s → t.Full →
    r.ret = 0 ∧ r.ip.toNat = t.addr ∧ ∃ m, r.mask = some m ∧ m.toNat = 2 ^ t.maskBits - 1) ∧
  ((¬∃ t : Ip4Text, t.text = s ∧ t.Full) → r.ret = -1)

/-! ### Numbers -/

theorem isDigit_iff {c : UInt8} : isDigit c ↔ 48 ≤ c.toNat ∧ c.toNat ≤ 57 := by
  rw [isDigit, Bool.and_eq_true, decide_eq_true_iff, decide_eq_true_iff, UInt8.le_iff_toNat_le,
    UInt8.le_iff_toNat_le]
  rfl

theorem notMem_of_digits {d : List UInt8} (h : ∀ c ∈ d, isDigit c) {q : UInt8}
    (hq : isDigit q = false) : q ∉ d := fun hmem => by
  rw [h q hmem] at hq
  cases hq

/-- What `atoi` makes of digits. -/
theorem atoiClamped_digits {d : List UInt8} (h : ∀ c ∈ d, isDigit c) :
    atoiClamped d = (min (decimal d) (2 ^ 31 - 1) : ℕ) := by
  have htake : d.takeWhile isDigit = d := takeWhile_eq_self_iff.mpr h
  have hdrop : d.dropWhile isSpace = d := by
    cases d with
    | nil => rfl
    | cons c d =>
      have hc := isDigit_iff.mp (h c mem_cons_self)
      refine dropWhile_cons_of_neg ?_
      simp only [isSpace, Bool.or_eq_true, Bool.and_eq_true, decide_eq_true_eq, not_or, not_and,
        UInt8.le_iff_toNat_le, ← UInt8.toNat_inj]
      exact ⟨fun h32 => by rw [h32] at hc; exact absurd hc.1 (by decide),
        fun _ h13 => absurd (hc.1.trans h13) (by decide)⟩
  rw [atoiClamped, hdrop]
  have hsign : ∀ q : UInt8, isDigit q = false → ∀ t, d ≠ q :: t := fun q hq t hd =>
    notMem_of_digits h hq (by rw [hd]; exact mem_cons_self)
  split
  · exact absurd rfl (hsign 45 (by decide) _)
  · exact absurd rfl (hsign 43 (by decide) _)
  · rw [htake]
    push_cast
    omega

theorem toNat_atoi {d : List UInt8} (h : ∀ c ∈ d, isDigit c) :
    (UInt32.ofInt (atoiClamped d)).toNat = min (decimal d) (2 ^ 31 - 1) := by
  rw [atoiClamped_digits h, UInt32.ofInt, toNat_ofNat']
  omega

/-! ### The pieces of a text -/

section Pieces

variable {s d : List UInt8} {ds : List (List UInt8)}

/-- What the loop makes of some pieces from pass `i` on. -/
def ip4Sum (i : ℕ) (ip : UInt32) : List (List UInt8) → UInt32
  | [] => ip
  | d :: ds =>
    ip4Sum (i + 1) (ip + (UInt32.ofInt (atoiClamped d) <<< (UInt32.ofNat i * 8))) ds

/-- One number of an address. -/
theorem checked_iff (d : List UInt8) :
    (d.all isDigit = true ∧ ¬UInt32.ofInt (atoiClamped d) > 255) ↔ DigitsUpTo 255 d := by
  rw [List.all_eq_true, DigitsUpTo]
  refine and_congr_right fun hd => ?_
  rw [gt_iff_lt, lt_iff_toNat_lt, toNat_atoi hd]
  change ¬255 < _ ↔ _
  omega

/-- A number of an address at its place. -/
theorem toNat_shifted (h : DigitsUpTo 255 d) {i : ℕ} (hi : i < 4) :
    (UInt32.ofInt (atoiClamped d) <<< (UInt32.ofNat i * 8)).toNat = 256 ^ i * decimal d := by
  have hle := h.2
  have hatoi : (UInt32.ofInt (atoiClamped d)).toNat = decimal d := by
    rw [toNat_atoi h.1]
    omega
  have hplace : ∀ i < 4, (UInt32.ofNat i * 8).toNat % 32 = 8 * i := by decide
  rw [UInt32.toNat_shiftLeft, hplace i hi, hatoi, Nat.shiftLeft_eq, Nat.pow_mul, Nat.mul_comm]
  refine Nat.mod_eq_of_lt ?_
  calc 256 ^ i * decimal d ≤ 256 ^ 3 * 255 :=
        Nat.mul_le_mul (Nat.pow_le_pow_right (by decide) (by omega)) hle
    _ < 2 ^ 32 := by decide

/-- What the loop adds up. -/
theorem toNat_ip4Sum {i : ℕ} {ip : UInt32} (hi : i + ds.length ≤ 4) (hip : ip.toNat < 256 ^ i)
    (h : ∀ d ∈ ds, DigitsUpTo 255 d) :
    (ip4Sum i ip ds).toNat = ip.toNat + 256 ^ i * Nat.ofDigits 256 (ds.map decimal) := by
  induction ds generalizing i ip with
  | nil => simp [ip4Sum]
  | cons d ds ih =>
    obtain ⟨hd, hds⟩ := forall_mem_cons.mp h
    rw [length_cons] at hi
    -- the sum fits into the bytes up to this one
    have hplace : 256 ^ i * decimal d ≤ 256 ^ i * 255 := Nat.mul_le_mul_left _ hd.2
    have hpow : 256 ^ (i + 1) = 256 ^ i * 256 := Nat.pow_succ 256 i
    have htop : 256 ^ (i + 1) ≤ 256 ^ 4 := Nat.pow_le_pow_right (by decide) (by omega)
    have hsum : (ip + UInt32.ofInt (atoiClamped d) <<< (UInt32.ofNat i * 8)).toNat =
        ip.toNat + 256 ^ i * decimal d := by
      rw [UInt32.toNat_add, toNat_shifted hd (by omega)]
      exact Nat.mod_eq_of_lt (by omega)
    rw [ip4Sum, ih (by omega) (by rw [hsum]; omega) hds, hsum, map_cons, Nat.ofDigits_cons,
      hpow]
    ring

theorem notMem_intercalate {q c : UInt8} (hq : q ≠ c) (h : ∀ d ∈ ds, q ∉ d) :
    q ∉ [c].intercalate ds := by
  induction ds with
  | nil => exact not_mem_nil
  | cons d ds ih =>
    obtain ⟨hd, hds⟩ := forall_mem_cons.mp h
    rcases ds with _ | ⟨e, es⟩
    · rwa [intercalate_singleton]
    · simp [hd, hq, ih hds]

theorem check_eq {buf : List UInt8} {str : ℕ} (hd : strAt buf str = d) (x y : ℤ × UInt32) :
    (if !checkIsNum buf str then x else if atoiAt buf str > 255 then x else y) =
      if DigitsUpTo 255 d then y else x := by
  rw [checkIsNum, atoiAt, hd]
  by_cases h : DigitsUpTo 255 d
  · obtain ⟨hall, hle⟩ := (checked_iff d).mpr h
    rw [if_pos h, if_neg (by simp [hall]), if_neg hle]
  · split_ifs with hall hle
    · rfl
    · rfl
    · exact absurd ((checked_iff d).mp ⟨by simpa using hall, hle⟩) h

/-- A text with `n` pieces, each of them a number that is not too large. -/
def HasNumbers (n : ℕ) (s : List UInt8) : Prop :=
  (s.splitOn 46).length = n ∧ ∀ d ∈ s.splitOn 46, DigitsUpTo 255 d

theorem hasNumbers_one : HasNumbers 1 s ↔ DigitsUpTo 255 s := by
  constructor
  · rintro ⟨hlen, hall⟩
    obtain ⟨d, hd⟩ := length_eq_one_iff.mp hlen
    have hs : [46].intercalate (s.splitOn 46) = s := intercalate_splitOn 46
    rw [hd, intercalate_singleton] at hs
    exact hs ▸ hall d (by rw [hd]; exact mem_singleton_self d)
  · intro h
    have hsplit : s.splitOn 46 = [s] :=
      splitOn_eq_singleton (notMem_of_digits h.1 (by decide))
    rw [HasNumbers, hsplit]
    exact ⟨rfl, by simpa using h⟩

theorem hasNumbers_cons (hd : 46 ∉ d) (n : ℕ) :
    HasNumbers (n + 1) (d ++ 46 :: s) ↔ DigitsUpTo 255 d ∧ HasNumbers n s := by
  rw [HasNumbers, HasNumbers, splitOn_append_cons_self_of_not_mem hd, length_cons,
    forall_mem_cons, Nat.add_right_cancel_iff, and_left_comm]

/-- **The loop** takes a text with as many numbers as there are passes. -/
theorem ip4Loop_eq {n : ℕ} (hn : n < 4) (ip : UInt32) (pre post : List UInt8) (hs : 0 ∉ s) :
    (HasNumbers (n + 1) s → ip4Loop (n + 1) ip (pre ++ (s ++ 0 :: post)) pre.length =
      (0, ip4Sum (3 - n) ip (s.splitOn 46))) ∧
    (¬HasNumbers (n + 1) s → (ip4Loop (n + 1) ip (pre ++ (s ++ 0 :: post)) pre.length).1 = -1) := by
  induction n generalizing ip pre s with
  | zero =>
    rw [ip4Loop, if_pos rfl]
    simp only [check_eq (strAt_append pre hs post), zero_add, hasNumbers_one]
    rw [atoiAt, strAt_append pre hs post]
    refine ⟨fun h => ?_, fun h => by rw [if_neg h]⟩
    have hsplit : s.splitOn 46 = [s] :=
      splitOn_eq_singleton (notMem_of_digits h.1 (by decide))
    rw [if_pos h, hsplit]
    rfl
  | succ n ih =>
    rw [ip4Loop, if_neg n.succ_ne_zero, strchr_append pre hs]
    rcases split_line s 46 with ⟨hno, -⟩ | ⟨r, -, hr⟩
    · rw [if_neg hno]
      refine ⟨fun h => ?_, fun _ => rfl⟩
      have hlen := h.1
      rw [splitOn_eq_singleton hno, length_singleton] at hlen
      omega
    · have hdot : 46 ∈ s := by
        rw [hr]
        simp
      have hd : 46 ∉ s.takeWhile (· ≠ 46) := fun hmem => by
        simpa using mem_takeWhile_imp hmem
      rw [if_pos hdot]
      generalize s.takeWhile (· ≠ 46) = d at *
      subst hr
      have hr0 : 0 ∉ r := fun h0 => hs (by simp [h0])
      have hd0 : 0 ∉ d := fun h0 => hs (by simp [h0])
      have hbuf : (pre ++ (d ++ 46 :: r ++ 0 :: post)).set (pre.length + d.length) 0 =
          pre ++ d ++ [0] ++ (r ++ 0 :: post) := by
        simp
      have hlen : pre.length + d.length + 1 = (pre ++ d ++ [0]).length := by
        rw [length_append, length_append]
        rfl
      have hstr : strAt (pre ++ d ++ [0] ++ (r ++ 0 :: post)) pre.length = d := by
        simpa using strAt_append pre hd0 (r ++ 0 :: post)
      simp only [map_some, hbuf, hlen, check_eq hstr, hasNumbers_cons hd,
        splitOn_append_cons_self_of_not_mem hd]
      rw [atoiAt, hstr]
      obtain ⟨hyes, hno⟩ := ih (by omega)
        (ip + UInt32.ofInt (atoiClamped d) <<< (UInt32.ofNat (3 - (n + 1)) * 8)) (pre ++ d ++ [0]) hr0
      constructor
      · rintro ⟨hfirst, hrest⟩
        rw [if_pos hfirst, hyes hrest, ip4Sum, show 3 - (n + 1) + 1 = 3 - n by omega]
      · intro h
        split_ifs with hfirst
        · exact hno fun hrest => h ⟨hfirst, hrest⟩
        · rfl

end Pieces

/-! ### The text as a whole -/

namespace Ip4Text

variable (t : Ip4Text)

theorem digits {d : List UInt8} (hd : d ∈ t.fields) : ∀ c ∈ d, isDigit c := (t.fields_ok d hd).1

theorem fields_ne_nil : t.fields ≠ [] := ne_nil_of_length_pos (by rw [t.four]; decide)

theorem splitOn_fields : ([46].intercalate t.fields).splitOn 46 = t.fields :=
  splitOn_intercalate 46 (fun _ hd => notMem_of_digits (t.digits hd) (by decide))
    t.fields_ne_nil

theorem hasNumbers : HasNumbers 4 ([46].intercalate t.fields) := by
  rw [HasNumbers, t.splitOn_fields]
  exact ⟨t.four, t.fields_ok⟩

theorem slash_notMem : 47 ∉ [46].intercalate t.fields := by
  refine notMem_intercalate (by decide) fun d hd => ?_
  exact notMem_of_digits (t.digits hd) (by decide)

theorem text_split :
    t.text.takeWhile (· ≠ 47) = [46].intercalate t.fields ∧
      t.text.dropWhile (· ≠ 47) = t.bits.elim [] (47 :: ·) := by
  refine takeWhile_stop t.slash_notMem ?_
  rcases t.bits with _ | b
  · exact .inl rfl
  · exact .inr ⟨b, rfl⟩

/-- A text is read in one way only. -/
theorem ext_text {t t' : Ip4Text} (h : t.text = t'.text) : t = t' := by
  obtain ⟨htake, hdrop⟩ := t.text_split
  rw [h, t'.text_split.1] at htake
  rw [h, t'.text_split.2] at hdrop
  have hfields : t.fields = t'.fields := by rw [← t.splitOn_fields, ← htake, t'.splitOn_fields]
  have hbits : t.bits = t'.bits := by
    rcases hb : t.bits with _ | b <;> rcases hb' : t'.bits with _ | b' <;> simp_all
  cases t
  cases t'
  congr

end Ip4Text

/-! ### The function as a whole -/

section Whole

variable {s post : List UInt8} {m : UInt32}

/-- The mask that is stored. -/
def codeMask (bits : Option (List UInt8)) : UInt32 :=
  bits.elim 0xffffffff fun b => (1 <<< UInt32.ofInt (atoiClamped b)) - 1

theorem ip4Part_eq (hs : 0 ∉ s) (post : List UInt8) (mask : Option UInt32) :
    (HasNumbers 4 s → ip4Part (s ++ 0 :: post) mask = ⟨0, ip4Sum 0 0 (s.splitOn 46), mask⟩) ∧
    (¬HasNumbers 4 s → (ip4Part (s ++ 0 :: post) mask).ret = -1) := by
  obtain ⟨hyes, hno⟩ := ip4Loop_eq (n := 3) (by decide) 0 [] post hs
  refine ⟨fun h => ?_, fun h => hno h⟩
  have hloop := hyes h
  rw [nil_append, length_nil] at hloop
  rw [ip4Part, hloop]

theorem mask_checked_iff (b : List UInt8) :
    (b.all isDigit = true ∧ ¬(UInt32.ofInt (atoiClamped b) = 0 ∨
      UInt32.ofInt (atoiClamped b) > 32)) ↔ DigitsUpTo 32 b ∧ 0 < decimal b := by
  rw [List.all_eq_true, DigitsUpTo, and_assoc]
  refine and_congr_right fun hb => ?_
  rw [gt_iff_lt, lt_iff_toNat_lt, ← UInt32.toNat_inj, toNat_atoi hb]
  change ¬(_ = 0 ∨ 32 < _) ↔ _
  omega

/-- A text with an address and a mask. -/
theorem cliParseIp4_slash {a b : List UInt8} (ha : 47 ∉ a) (hs : 0 ∉ a ++ 47 :: b)
    (post : List UInt8) (ip m : UInt32) :
    (DigitsUpTo 32 b ∧ 0 < decimal b → cliParseIp4 (a ++ 47 :: b ++ 0 :: post) ip (some m) =
      ip4Part (a ++ 0 :: (b ++ 0 :: post)) (some (codeMask (some b)))) ∧
    (¬(DigitsUpTo 32 b ∧ 0 < decimal b) →
      (cliParseIp4 (a ++ 47 :: b ++ 0 :: post) ip (some m)).ret = -1) := by
  have hb0 : 0 ∉ b := fun h0 => hs (by simp [h0])
  have hchr : strchr (a ++ 47 :: b ++ 0 :: post) 0 47 = some a.length := by
    have h := strchr_append [] hs post 47
    rw [nil_append, if_pos (by simp), (takeWhile_stop ha (.inr ⟨b, rfl⟩)).1] at h
    simpa using h
  have hset : (a ++ 47 :: b ++ 0 :: post).set a.length 0 = a ++ 0 :: (b ++ 0 :: post) := by
    simp
  have hstr : strAt (a ++ 0 :: (b ++ 0 :: post)) (a.length + 1) = b := by
    have h := strAt_append (a ++ [0]) hb0 post
    rwa [length_append, length_singleton, append_assoc] at h
  rw [cliParseIp4, hchr]
  simp only [hset, checkIsNum, atoiAt, hstr]
  rw [← mask_checked_iff]
  constructor
  · rintro ⟨hall, hrange⟩
    rw [if_neg (by simp [hall]), if_neg hrange]
    rfl
  · intro h
    split_ifs with hall hrange
    · rfl
    · rfl
    · exact absurd ⟨by simpa using hall, hrange⟩ h

/-- A text without a slash. -/
theorem cliParseIp4_noSlash (hs : 0 ∉ s) (hno : 47 ∉ s) (post : List UInt8) (ip m : UInt32) :
    cliParseIp4 (s ++ 0 :: post) ip (some m) = ip4Part (s ++ 0 :: post) (some (codeMask none)) := by
  have hchr : strchr (s ++ 0 :: post) 0 47 = none := by
    have h := strchr_append [] hs post 47
    rwa [nil_append, if_neg hno] at h
  rw [cliParseIp4, hchr]
  rfl

/-- **A text of numbers is taken**, also if some are missing. -/
theorem cliParseIp4_text (t : Ip4Text) (hs : 0 ∉ t.text) (post : List UInt8) (ip m : UInt32) :
    cliParseIp4 (t.text ++ 0 :: post) ip (some m) =
      ⟨0, ip4Sum 0 0 t.fields, some (codeMask t.bits)⟩ := by
  have hsplit : t.text = [46].intercalate t.fields ++ t.bits.elim [] (47 :: ·) := rfl
  rw [hsplit] at hs ⊢
  have ha0 : 0 ∉ [46].intercalate t.fields := fun h => hs (mem_append_left _ h)
  have hpart := fun post mask => (ip4Part_eq ha0 post mask).1 t.hasNumbers
  rw [t.splitOn_fields] at hpart
  rcases hb : t.bits with _ | b
  · rw [elim_none, append_nil, cliParseIp4_noSlash ha0 t.slash_notMem, hpart]
  · rw [hb, elim_some] at hs
    rw [elim_some, (cliParseIp4_slash t.slash_notMem hs post ip m).1 (t.bits_ok b hb), hpart]

/-- **Nothing else is taken.** -/
theorem exists_text (hs : 0 ∉ s) (post : List UInt8) (ip m : UInt32)
    (h : (cliParseIp4 (s ++ 0 :: post) ip (some m)).ret ≠ -1) : ∃ t : Ip4Text, t.text = s := by
  rcases split_line s 47 with ⟨hno, -⟩ | ⟨b, hb, hsplit⟩
  · rw [cliParseIp4_noSlash hs hno] at h
    have hnumbers := not_imp_comm.mp (ip4Part_eq hs post _).2 h
    exact ⟨⟨s.splitOn 46, hnumbers.1, hnumbers.2, none, by simp⟩, by simp [Ip4Text.text]⟩
  · have ha : 47 ∉ s.takeWhile (· ≠ 47) := fun hmem => by simpa using mem_takeWhile_imp hmem
    generalize s.takeWhile (· ≠ 47) = a at *
    subst hsplit
    have ha0 : 0 ∉ a := fun h0 => hs (mem_append_left _ h0)
    obtain ⟨hyes, hno⟩ := cliParseIp4_slash ha hs post ip m
    have hbits := not_imp_comm.mp hno h
    rw [hyes hbits] at h
    have hnumbers := not_imp_comm.mp (ip4Part_eq ha0 _ _).2 h
    exact ⟨⟨a.splitOn 46, hnumbers.1, hnumbers.2, some b, by simpa using hbits⟩, by simp [Ip4Text.text]⟩

/-- The mask has the right bits set, unless the number is 32. -/
theorem codeMask_iff {bits : Option (List UInt8)}
    (h : ∀ b ∈ bits, DigitsUpTo 32 b ∧ 0 < decimal b) :
    (codeMask bits).toNat = 2 ^ bits.elim 32 decimal - 1 ↔ bits.map decimal ≠ some 32 := by
  rcases bits with _ | b
  · exact iff_of_true rfl (by simp)
  · obtain ⟨hb, hpos⟩ := h b rfl
    have hatoi : UInt32.ofInt (atoiClamped b) = UInt32.ofNat (decimal b) := by
      rw [← UInt32.toNat_inj, toNat_atoi hb.1, toNat_ofNat']
      have hle := hb.2
      omega
    have hmask : ∀ n < 33, ((1 <<< UInt32.ofNat n) - 1 : UInt32).toNat = 2 ^ n - 1 ↔ n ≠ 32 := by
      decide
    rw [codeMask, elim_some, elim_some, hatoi, hmask _ (Nat.lt_succ_of_le hb.2)]
    simp

/-- **Texts are taken for what they are** unless they would be addresses but for a number that is
missing, or have `/32` at the end. -/
theorem cliParseIp4_right_iff (hs : 0 ∉ s) (post : List UInt8) (ip m : UInt32) :
    Ip4Right s (cliParseIp4 (s ++ 0 :: post) ip (some m)) ↔
      ∀ t : Ip4Text, t.text = s → t.Full ∧ t.bits.map decimal ≠ some 32 := by
  constructor
  · rintro ⟨hright, hwrong⟩ t rfl
    have hret := cliParseIp4_text t hs post ip m
    have hfull : t.Full := by
      by_contra hnot
      have hbad := hwrong fun ⟨t', htext, hfull⟩ => hnot (Ip4Text.ext_text htext ▸ hfull)
      rw [hret] at hbad
      cases hbad
    obtain ⟨-, -, m', hm', hbits⟩ := hright t rfl hfull
    rw [hret] at hm'
    refine ⟨hfull, (codeMask_iff t.bits_ok).mp ?_⟩
    rw [Option.some.inj hm']
    exact hbits
  · intro h
    refine ⟨?_, fun hnot => ?_⟩
    · rintro t rfl -
      rw [cliParseIp4_text t hs post ip m]
      refine ⟨rfl, ?_, _, rfl, (codeMask_iff t.bits_ok).mpr (h t rfl).2⟩
      have hsum : (ip4Sum 0 0 t.fields).toNat = _ :=
        toNat_ip4Sum (by rw [t.four]) (by decide) t.fields_ok
      simpa [Ip4Text.addr] using hsum
    · by_contra hret
      obtain ⟨t, rfl⟩ := exists_text hs post ip m hret
      exact hnot ⟨t, rfl, (h t rfl).1⟩

/-- `1.2.3.4/8` is taken for what it is. -/
theorem cliParseIp4_right_iff_small :
    Ip4Right [49, 46, 50, 46, 51, 46, 52, 47, 56]
      (cliParseIp4 [49, 46, 50, 46, 51, 46, 52, 47, 56, 0] 0 (some 0)) := by
  refine (cliParseIp4_right_iff (s := [49, 46, 50, 46, 51, 46, 52, 47, 56]) (by decide) [] 0 0).mpr
    fun t ht => ?_
  have heq := @Ip4Text.ext_text t ⟨[[49], [50], [51], [52]], rfl, by decide +kernel, some [56],
    by simp; decide +kernel⟩ (ht.trans rfl)
  subst heq
  exact ⟨by simp [Ip4Text.Full], by decide⟩

/-- `1..2.3` is taken for an address, and `1.2.3.4/32` gives a mask without bits. -/
theorem not_cliParseIp4_right :
    ¬Ip4Right [49, 46, 46, 50, 46, 51] (cliParseIp4 [49, 46, 46, 50, 46, 51, 0] 0 (some 0)) ∧
      ¬Ip4Right [49, 46, 50, 46, 51, 46, 52, 47, 51, 50]
        (cliParseIp4 [49, 46, 50, 46, 51, 46, 52, 47, 51, 50, 0] 0 (some 0)) := by
  constructor
  · rintro ⟨-, hwrong⟩
    have hret : (cliParseIp4 [49, 46, 46, 50, 46, 51, 0] 0 (some 0)).ret = 0 := by decide +kernel
    have hnone : ¬∃ t : Ip4Text, t.text = [49, 46, 46, 50, 46, 51] ∧ t.Full := by
      rintro ⟨t, ht, hfull⟩
      have heq := @Ip4Text.ext_text t ⟨[[49], [], [50], [51]], rfl, by decide +kernel, none, by simp⟩
        (ht.trans rfl)
      subst heq
      exact hfull [] (by simp) rfl
    rw [hwrong hnone] at hret
    cases hret
  · rintro ⟨hright, -⟩
    have hmask : (cliParseIp4 [49, 46, 50, 46, 51, 46, 52, 47, 51, 50, 0] 0 (some 0)).mask =
        some 0 := by decide +kernel
    obtain ⟨-, -, m, hm, hbits⟩ := hright ⟨[[49], [50], [51], [52]], rfl, by decide +kernel,
      some [51, 50], by simp; decide +kernel⟩ rfl (by simp [Ip4Text.Full])
    rw [hmask] at hm
    rw [← Option.some.inj hm] at hbits
    exact absurd hbits (by decide)

end Whole

end Gd32.App
