import Gd32Firmware.Config
import Gd32Firmware.Lib.Loop
import Gd32Firmware.Util.CString
import Mathlib.Data.FinEnum
import Mathlib.Data.Int.Order.Basic
import Mathlib.Data.List.GetD
import Mathlib.Data.Nat.Digits.Lemmas
import Mathlib.Tactic.Ring

/-!
# Strings, numbers and digits

The helpers of `tuya_tools.c` that compare strings without regard to case, read a decimal number
off a string, and take a number to its decimal digits and back.

Each is right but at one end of its range. `tuya_strncasecmp` looks for the terminator of the
first string before that of the second, so two strings that end together in front of the limit
are reported to differ, unless the two pointers are the same
(`Tuya.tuyaStrncasecmp_iff`). `tuya_int2intArray` counts one digit for zero and writes none,
and `tuya_intArray2int` takes its length from the index on, with a counter of one byte
(`Tuya.intArray_iff`). `tuya_str2num` takes the empty string and adds up modulo `2 ^ 32`
(`Tuya.tuyaStr2num_iff`).

A loop whose counter is narrower than its bound need not end; the loops are run for a number of
passes.
-/

namespace Gd32

open Function List

variable {s s1 s2 : CString} {i n p1 p2 num len : ℕ} {mem : ℕ → UInt8}

namespace Tuya

/-! ### Comparing strings -/

/-- The string `s` lies at the address `p`. -/
def StringAt (mem : ℕ → UInt8) (p : ℕ) (s : CString) : Prop :=
  ∀ i, i ≤ s.len → mem (p + i) = s.bytes.getD i 0

def toLower (c : UInt8) : ℕ :=
  if 65 ≤ c.toNat ∧ c.toNat ≤ 90 then c.toNat - 65 + 97 else c.toNat

/-- The variables of `tuya_strncasecmp`, and the addresses it has read. -/
structure CaseCmp where
  p1 : ℕ
  p2 : ℕ
  cnt : ℕ
  reads : List ℕ

/-- One pass of the loop of `tuya_strncasecmp`. -/
def strncasecmpBody (mem : ℕ → UInt8) (n : ℕ) (v : CaseCmp) : CaseCmp ⊕ (ℤ × List ℕ) :=
  let result : ℤ := toLower (mem v.p1) - toLower (mem v.p2)
  let reads := v.reads ++ [v.p1, v.p2]
  if result ≠ 0 then .inr (result, reads)
  else if n ≤ v.cnt + 1 then .inr (result, reads)
  else if mem v.p1 = 0 then .inr (-1, reads)
  else if mem v.p2 = 0 then .inr (1, reads)
  else .inl ⟨v.p1 + 1, v.p2 + 1, v.cnt + 1, reads⟩

/-- `tuya_strncasecmp`, with the addresses it reads. -/
def tuyaStrncasecmp (mem : ℕ → UInt8) (n p1 p2 passes : ℕ) : Option (ℤ × List ℕ) :=
  if p1 = p2 then some (0, [])
  else Loop.runFor (strncasecmpBody mem n) passes ⟨p1, p2, 0, []⟩

/-- A character of a string in lower case; behind the end it is the terminator. -/
def lowerAt (s : CString) (i : ℕ) : ℕ := toLower (s.bytes.getD i 0)

/-- The first `n` characters of a string, up to its terminator, in lower case. -/
def folded (n : ℕ) (s : CString) : List ℕ := (s.bytes.take n).map toLower

/-- **What a comparison of the first `n` characters should return**: `0` for strings that are the
same but for the case, and otherwise a number of the sign that the first difference has. -/
structure Compares (n : ℕ) (s1 s2 : CString) (result : ℤ) : Prop where
  zero : result = 0 ↔ folded n s1 = folded n s2
  sign : ∀ i < n, (∀ j < i, lowerAt s1 j = lowerAt s2 j) → lowerAt s1 i ≠ lowerAt s2 i →
    result.sign = ((lowerAt s1 i : ℤ) - lowerAt s2 i).sign

/-- The addresses lie in one of the two strings, their terminators included. -/
def ReadsWithin (p1 p2 : ℕ) (s1 s2 : CString) (reads : List ℕ) : Prop :=
  ∀ a ∈ reads, (p1 ≤ a ∧ a ≤ p1 + s1.len) ∨ (p2 ≤ a ∧ a ≤ p2 + s2.len)

/-- **The comparison is right for two strings**: wherever they lie, it ends, returns what it
should and reads nothing else, and what it returns is the same wherever they lie. -/
structure ComparesStrings (n : ℕ) (s1 s2 : CString) : Prop where
  result : ∀ mem p1 p2, StringAt mem p1 s1 → StringAt mem p2 s2 →
    ∃ passes r reads, tuyaStrncasecmp mem n p1 p2 passes = some (r, reads) ∧
      Compares n s1 s2 r ∧ ReadsWithin p1 p2 s1 s2 reads
  contents : ∀ mem p1 p2 mem' p1' p2' passes passes' r r' reads reads',
    StringAt mem p1 s1 → StringAt mem p2 s2 → StringAt mem' p1' s1 → StringAt mem' p2' s2 →
    tuyaStrncasecmp mem n p1 p2 passes = some (r, reads) →
    tuyaStrncasecmp mem' n p1' p2' passes' = some (r', reads') → r = r'

/-- The two strings are the same but for the case and end in front of the last of the `n`
characters. -/
def EndTogether (n : ℕ) (s1 s2 : CString) : Prop :=
  s1.bytes.map toLower = s2.bytes.map toLower ∧ s1.len + 1 < n

theorem toLower_eq_zero_iff {c : UInt8} : toLower c = 0 ↔ c = 0 := by
  have h0 : c = 0 ↔ c.toNat = 0 := by rw [← UInt8.toNat_inj]; rfl
  rw [toLower, h0]
  split <;> omega

theorem getD_ne_zero (h : i < s.len) : s.bytes.getD i 0 ≠ 0 := by
  have hi : i < s.bytes.length := h
  rw [getD_eq_getElem _ _ hi]
  exact fun h0 => s.bytes_ne_zero (h0 ▸ getElem_mem hi)

theorem getD_len (s : CString) : s.bytes.getD s.len 0 = 0 :=
  getD_eq_default _ _ le_rfl

theorem lowerAt_of_len_le (h : s.len ≤ i) : lowerAt s i = 0 := by
  rw [lowerAt, getD_eq_default _ _ h]
  rfl

theorem lowerAt_ne_zero (h : i < s.len) : lowerAt s i ≠ 0 := fun h0 =>
  getD_ne_zero h (toLower_eq_zero_iff.mp h0)

/-- Strings with the same characters in lower case up to `n` end together or not before. -/
theorem min_len_eq (h : ∀ i < n, lowerAt s1 i = lowerAt s2 i) :
    min n s1.len = min n s2.len := by
  by_contra hne
  rcases lt_or_gt_of_ne hne with hlt | hlt
  · have h1 : s1.len < n ∧ s1.len < s2.len := by omega
    exact lowerAt_ne_zero h1.2 ((h _ h1.1).symm.trans (lowerAt_of_len_le le_rfl))
  · have h1 : s2.len < n ∧ s2.len < s1.len := by omega
    exact lowerAt_ne_zero h1.2 ((h _ h1.1).trans (lowerAt_of_len_le le_rfl))

theorem getElem_folded (h : i < (folded n s).length) :
    (folded n s)[i] = lowerAt s i := by
  have hi : i < s.bytes.length := by
    simp only [folded, length_map, length_take] at h
    omega
  simp only [folded, getElem_map, getElem_take, lowerAt]
  rw [getD_eq_getElem _ _ hi]

/-- The first `n` characters agree as lists when they agree one by one. -/
theorem folded_eq_iff :
    folded n s1 = folded n s2 ↔ ∀ i < n, lowerAt s1 i = lowerAt s2 i := by
  have hlen : ∀ s : CString, (folded n s).length = min n s.len := fun s => by
    simp only [folded, length_map, length_take, CString.len]
  constructor
  · intro h i hi
    have hl : min n s1.len = min n s2.len := by rw [← hlen, ← hlen, h]
    rcases lt_or_ge i s1.len with h1 | h1
    · rw [← getElem_folded (n := n) (by rw [hlen]; omega),
        ← getElem_folded (n := n) (s := s2) (by rw [hlen]; omega)]
      simp only [h]
    · rw [lowerAt_of_len_le h1, lowerAt_of_len_le (by omega)]
  · intro h
    refine ext_getElem (by rw [hlen, hlen, min_len_eq h]) fun i h1 h2 => ?_
    rw [getElem_folded, getElem_folded]
    exact h i (by rw [hlen] at h1; omega)

/-- What the loop returns: the first difference, or, where there is none, `-1` when the strings
end in front of the last character compared. -/
def CaseOutcome (n : ℕ) (s1 s2 : CString) (r : ℤ) : Prop :=
  (∃ i < n, (∀ j < i, lowerAt s1 j = lowerAt s2 j) ∧ lowerAt s1 i ≠ lowerAt s2 i ∧
    r = (lowerAt s1 i : ℤ) - lowerAt s2 i) ∨
  ((∀ i < n, lowerAt s1 i = lowerAt s2 i) ∧ r = if s1.len + 1 < n then -1 else 0)

/-- Two first differences are at the same place. -/
theorem firstDiff_unique {j : ℕ} (hi : ∀ k < i, lowerAt s1 k = lowerAt s2 k)
    (hni : lowerAt s1 i ≠ lowerAt s2 i) (hj : ∀ k < j, lowerAt s1 k = lowerAt s2 k)
    (hnj : lowerAt s1 j ≠ lowerAt s2 j) : i = j := by
  rcases lt_trichotomy i j with h | h | h
  · exact absurd (hj i h) hni
  · exact h
  · exact absurd (hi j h) hnj

theorem CaseOutcome.unique {r r' : ℤ} (h : CaseOutcome n s1 s2 r)
    (h' : CaseOutcome n s1 s2 r') : r = r' := by
  rcases h with ⟨i, hi, hbefore, hne, rfl⟩ | ⟨hall, rfl⟩
  · rcases h' with ⟨j, hj, hbefore', hne', rfl⟩ | ⟨hall', -⟩
    · rw [firstDiff_unique hbefore hne hbefore' hne']
    · exact absurd (hall' i hi) hne
  · rcases h' with ⟨j, hj, -, hne', -⟩ | ⟨-, rfl⟩
    · exact absurd (hall j hj) hne'
    · rfl

/-- What the loop returns is right unless the strings end together. -/
theorem CaseOutcome.compares {r : ℤ} (h : CaseOutcome n s1 s2 r)
    (hend : ¬ ((∀ i < n, lowerAt s1 i = lowerAt s2 i) ∧ s1.len + 1 < n)) :
    Compares n s1 s2 r := by
  rcases h with ⟨i, hi, hbefore, hne, rfl⟩ | ⟨hall, rfl⟩
  · refine ⟨⟨fun h0 => absurd (by omega) hne, fun h0 => ?_⟩, fun j hj hbefore' hne' => ?_⟩
    · exact absurd (folded_eq_iff.mp h0 i hi) hne
    · rw [firstDiff_unique hbefore hne hbefore' hne']
  · rw [if_neg fun h => hend ⟨hall, h⟩]
    exact ⟨⟨fun _ => folded_eq_iff.mpr hall, fun _ => rfl⟩, fun j hj _ hne => absurd (hall j hj) hne⟩

/-- The loop after `i` passes: the characters in front of `i` agree, and neither string ended
there. -/
structure CmpAt (n p1 p2 : ℕ) (s1 s2 : CString) (v : CaseCmp) (i : ℕ) : Prop where
  first : v.p1 = p1 + i
  second : v.p2 = p2 + i
  count : v.cnt = i
  lt : i < n
  le1 : i ≤ s1.len
  le2 : i ≤ s2.len
  before : ∀ j < i, lowerAt s1 j = lowerAt s2 j
  reads : ReadsWithin p1 p2 s1 s2 v.reads

/-- **One pass** of the comparison. -/
theorem CmpAt.step {v : CaseCmp}
    (hs1 : StringAt mem p1 s1) (hs2 : StringAt mem p2 s2) (h : CmpAt n p1 p2 s1 s2 v i) :
    (∃ q, strncasecmpBody mem n v = .inr q ∧ CaseOutcome n s1 s2 q.1 ∧
      ReadsWithin p1 p2 s1 s2 q.2) ∨
    ∃ w, strncasecmpBody mem n v = .inl w ∧ CmpAt n p1 p2 s1 s2 w (i + 1) := by
  have hc1 : mem v.p1 = s1.bytes.getD i 0 := by rw [h.first, hs1 i h.le1]
  have hc2 : mem v.p2 = s2.bytes.getD i 0 := by rw [h.second, hs2 i h.le2]
  have hl1 : toLower (mem v.p1) = lowerAt s1 i := by rw [hc1, lowerAt]
  have hl2 : toLower (mem v.p2) = lowerAt s2 i := by rw [hc2, lowerAt]
  have hreads : ReadsWithin p1 p2 s1 s2 (v.reads ++ [v.p1, v.p2]) := by
    intro a ha
    rcases mem_append.mp ha with ha | ha
    · exact h.reads a ha
    · have h1 := h.le1
      have h2 := h.le2
      have hp1 := h.first
      have hp2 := h.second
      rcases mem_pair.mp ha with rfl | rfl
      · left
        omega
      · right
        omega
  rw [strncasecmpBody, hl1, hl2, h.count]
  by_cases hdiff : (lowerAt s1 i : ℤ) - lowerAt s2 i = 0
  swap
  · rw [if_pos hdiff]
    exact .inl ⟨_, rfl, .inl ⟨i, h.lt, h.before, by omega, rfl⟩, hreads⟩
  have hsame : lowerAt s1 i = lowerAt s2 i := by omega
  have hbefore : ∀ j < i + 1, lowerAt s1 j = lowerAt s2 j := fun j hj =>
    (Nat.lt_succ_iff_lt_or_eq.mp hj).elim (h.before j) fun he => he ▸ hsame
  rw [if_neg (not_not_intro hdiff)]
  by_cases hlast : n ≤ i + 1
  · -- the limit is reached, before the terminators are looked at
    rw [if_pos hlast]
    refine .inl ⟨_, rfl, .inr ⟨fun j hj => hbefore j (by omega), ?_⟩, hreads⟩
    have := h.le1
    rw [if_neg (by omega)]
    exact hdiff
  rw [if_neg hlast]
  by_cases hz : mem v.p1 = 0
  · -- both strings end here
    have hend1 : s1.len = i := by
      by_contra hne
      exact getD_ne_zero (lt_of_le_of_ne h.le1 (Ne.symm hne)) (hc1.symm.trans hz)
    have hend2 : s2.len = i := by
      by_contra hne
      refine lowerAt_ne_zero (lt_of_le_of_ne h.le2 (Ne.symm hne)) ?_
      rw [← hsame, ← hl1, hz]
      rfl
    rw [if_pos hz]
    refine .inl ⟨_, rfl, .inr ⟨fun j hj => ?_, (if_pos (by omega)).symm⟩, hreads⟩
    rcases lt_or_ge j i with hji | hji
    · exact h.before j hji
    · rw [lowerAt_of_len_le (by omega), lowerAt_of_len_le (by omega)]
  rw [if_neg hz]
  have hlt1 : i < s1.len := by
    refine lt_of_le_of_ne h.le1 fun he => hz ?_
    rw [hc1, he, getD_len]
  have hlt2 : i < s2.len := by
    refine lt_of_le_of_ne h.le2 fun he => lowerAt_ne_zero hlt1 ?_
    rw [hsame, lowerAt_of_len_le he.ge]
  rw [if_neg fun hz2 => getD_ne_zero hlt2 (hc2.symm.trans hz2)]
  exact .inr ⟨_, rfl, by rw [h.first, add_assoc], by rw [h.second, add_assoc], rfl, by omega,
    hlt1, hlt2, hbefore, hreads⟩

/-- **The comparison of two strings at different addresses.** -/
theorem exists_strncasecmp (hn : 1 ≤ n)
    (hne : p1 ≠ p2) (hs1 : StringAt mem p1 s1) (hs2 : StringAt mem p2 s2) :
    ∃ passes r reads, tuyaStrncasecmp mem n p1 p2 passes = some (r, reads) ∧
      CaseOutcome n s1 s2 r ∧ ReadsWithin p1 p2 s1 s2 reads := by
  have hstart : CmpAt n p1 p2 s1 s2 ⟨p1, p2, 0, []⟩ 0 :=
    ⟨rfl, rfl, rfl, hn, Nat.zero_le _, Nat.zero_le _, fun j hj => absurd hj (Nat.not_lt_zero j),
      fun a ha => absurd ha not_mem_nil⟩
  obtain ⟨passes, q, hrun, hout, hreads⟩ : ∃ passes q,
      Loop.runFor (strncasecmpBody mem n) passes ⟨p1, p2, 0, []⟩ = some q ∧
        CaseOutcome n s1 s2 q.1 ∧ ReadsWithin p1 p2 s1 s2 q.2 := by
    refine Loop.exists_runFor (P := fun v => ∃ i, CmpAt n p1 p2 s1 s2 v i) (fun v => n - v.cnt)
      ?_ ⟨0, hstart⟩
    rintro v ⟨i, hi⟩
    rcases hi.step hs1 hs2 with hleave | ⟨w, hw, hnext⟩
    · exact .inl hleave
    · have hlt := hi.lt
      have hcnt := hi.count
      have hcnt' := hnext.count
      exact .inr ⟨w, hw, ⟨i + 1, hnext⟩, by omega⟩
  exact ⟨passes, q.1, q.2, by rw [tuyaStrncasecmp, if_neg hne, hrun], hout, hreads⟩

theorem StringAt.len_le {p : ℕ} {t : CString} (hs : StringAt mem p s)
    (ht : StringAt mem p t) : s.len ≤ t.len := by
  by_contra hlt
  have hend : mem (p + t.len) = 0 := (ht t.len le_rfl).trans (getD_len t)
  exact getD_ne_zero (not_le.mp hlt) ((hs t.len (not_le.mp hlt).le).symm.trans hend)

/-- One string lies at an address. -/
theorem StringAt.unique {p : ℕ} {t : CString} (hs : StringAt mem p s)
    (ht : StringAt mem p t) : s = t := by
  have hlen : s.len = t.len := le_antisymm (hs.len_le ht) (ht.len_le hs)
  refine CString.ext_bytes (ext_getElem hlen fun i h1 h2 => ?_)
  rw [← getD_eq_getElem _ 0 h1, ← getD_eq_getElem _ 0 h2, ← hs i h1.le, ← ht i h2.le]

/-- Two strings, one behind the other. -/
def memOfStrings (s1 s2 : CString) (a : ℕ) : UInt8 := (s1.bytes ++ 0 :: s2.bytes).getD a 0

theorem stringAt_first (s1 s2 : CString) : StringAt (memOfStrings s1 s2) 0 s1 := by
  intro i hi
  rw [memOfStrings, zero_add]
  rcases lt_or_eq_of_le hi with h | rfl
  · exact getD_append _ _ _ _ h
  · have hle : s1.bytes.length ≤ s1.len := le_rfl
    rw [getD_append_right _ _ _ _ hle, getD_len, CString.len, Nat.sub_self]
    rfl

theorem stringAt_second (s1 s2 : CString) :
    StringAt (memOfStrings s1 s2) (s1.len + 1) s2 := by
  intro i _
  have hlen : s1.bytes.length = s1.len := rfl
  rw [memOfStrings, getD_append_right _ _ _ _ (by omega), hlen,
    show s1.len + 1 + i - s1.len = i + 1 by omega, getD_cons_succ]

theorem endTogether_iff :
    EndTogether n s1 s2 ↔ (∀ i < n, lowerAt s1 i = lowerAt s2 i) ∧ s1.len + 1 < n := by
  have hwhole : ∀ {s : CString}, s.len ≤ n → folded n s = s.bytes.map toLower := by
    intro s hs
    rw [folded, take_of_length_le hs]
  constructor
  · rintro ⟨hmap, hlt⟩
    have hlen : s1.bytes.length = s2.bytes.length := by simpa using congrArg List.length hmap
    have hlen' : s2.len = s1.len := hlen.symm
    refine ⟨folded_eq_iff.mp ?_, hlt⟩
    rw [hwhole (by omega), hwhole (by omega), hmap]
  · rintro ⟨hall, hlt⟩
    have hmin := min_len_eq hall
    refine ⟨?_, hlt⟩
    rw [← hwhole (by omega), ← hwhole (by omega)]
    exact folded_eq_iff.mpr hall

/-- Wherever two strings lie that do not end together, the comparison returns the first
difference. -/
theorem strncasecmp_outcome (hn : 1 ≤ n)
    (hs1 : StringAt mem p1 s1) (hs2 : StringAt mem p2 s2) (hend : ¬ EndTogether n s1 s2) :
    ∃ passes r reads, tuyaStrncasecmp mem n p1 p2 passes = some (r, reads) ∧
      CaseOutcome n s1 s2 r ∧ ReadsWithin p1 p2 s1 s2 reads := by
  by_cases hp : p1 = p2
  · -- one pointer: one string, and nothing is read
    have hsame : s1 = s2 := hs1.unique (hp ▸ hs2)
    have hlast : ¬ s1.len + 1 < n := fun h => hend ⟨by rw [hsame], h⟩
    refine ⟨0, 0, [], by rw [tuyaStrncasecmp, if_pos hp], .inr ⟨fun i _ => by rw [hsame], ?_⟩,
      fun a ha => absurd ha not_mem_nil⟩
    rw [if_neg hlast]
  · exact exists_strncasecmp hn hp hs1 hs2

theorem strncasecmp_unique {passes passes' : ℕ}
    {q q' : ℤ × List ℕ} (h : tuyaStrncasecmp mem n p1 p2 passes = some q)
    (h' : tuyaStrncasecmp mem n p1 p2 passes' = some q') : q = q' := by
  rw [tuyaStrncasecmp] at h h'
  split at h
  next hp =>
    rw [if_pos hp] at h'
    exact Option.some.inj (h.symm.trans h')
  next hp =>
    rw [if_neg hp] at h'
    exact Loop.runFor_unique h h'

theorem comparesStrings_of_not_endTogether (hn : 1 ≤ n)
    (hend : ¬ EndTogether n s1 s2) : ComparesStrings n s1 s2 := by
  constructor
  · intro mem p1 p2 hs1 hs2
    obtain ⟨passes, r, reads, hrun, hout, hreads⟩ := strncasecmp_outcome hn hs1 hs2 hend
    exact ⟨passes, r, reads, hrun, hout.compares fun h => hend (endTogether_iff.mpr h), hreads⟩
  · intro mem p1 p2 mem' p1' p2' passes passes' r r' reads reads' hs1 hs2 hs1' hs2' hrun hrun'
    obtain ⟨k, t, ts, hk, hout, -⟩ := strncasecmp_outcome hn hs1 hs2 hend
    obtain ⟨k', t', ts', hk', hout', -⟩ := strncasecmp_outcome hn hs1' hs2' hend
    have ht : r = t := congrArg Prod.fst (strncasecmp_unique hrun hk)
    have ht' : r' = t' := congrArg Prod.fst (strncasecmp_unique hrun' hk')
    rw [ht, ht', hout.unique hout']

/-- Strings that end together are reported to differ, at two addresses at least. -/
theorem not_comparesStrings (hend : EndTogether n s1 s2) :
    ¬ ComparesStrings n s1 s2 := by
  intro h
  obtain ⟨hall, hlt⟩ := endTogether_iff.mp hend
  have hs1 := stringAt_first s1 s2
  have hs2 := stringAt_second s1 s2
  obtain ⟨k, t, ts, hk, hout, -⟩ :=
    exists_strncasecmp (n := n) (by omega) (Nat.succ_ne_zero _).symm hs1 hs2
  obtain ⟨passes, r, reads, hrun, hcmp, -⟩ := h.result _ _ _ hs1 hs2
  have hrt : r = t := congrArg Prod.fst (strncasecmp_unique hrun hk)
  have hr0 : r = 0 := hcmp.zero.mpr (folded_eq_iff.mpr hall)
  rcases hout with ⟨i, hi, -, hne, -⟩ | ⟨-, ht⟩
  · exact hne (hall i hi)
  · omega

/-- **`tuya_strncasecmp` is right for two strings if and only if they do not end together in
front of the last character compared.** -/
theorem tuyaStrncasecmp_iff (n : ℕ) (hn : 1 ≤ n) (s1 s2 : CString) :
    ComparesStrings n s1 s2 ↔
      ¬ (s1.bytes.map toLower = s2.bytes.map toLower ∧ s1.len + 1 < n) :=
  ⟨fun h hend => not_comparesStrings hend h, comparesStrings_of_not_endTogether hn⟩

/-- `ab` and `AC`. -/
theorem tuyaStrncasecmp_ab_ac :
    ComparesStrings 10 ⟨[97, 98], by decide⟩ ⟨[65, 67], by decide⟩ :=
  (tuyaStrncasecmp_iff 10 (by decide) _ _).mpr (by decide)

/-- `ab` and `AB` are reported to differ. -/
theorem strncasecmp_ab_AB :
    (tuyaStrncasecmp (memOfStrings ⟨[97, 98], by decide⟩ ⟨[65, 66], by decide⟩) 10 0 3 5).map
        Prod.fst = some (-1) ∧
      ¬ ComparesStrings 10 ⟨[97, 98], by decide⟩ ⟨[65, 66], by decide⟩ :=
  ⟨by decide, not_comparesStrings (by constructor <;> decide)⟩

/-! ### Reading a decimal number -/

/-- An ASCII digit. -/
def IsDigit (c : UInt8) : Prop := 48 ≤ c.toNat ∧ c.toNat ≤ 57

instance : DecidablePred IsDigit := fun c =>
  inferInstanceAs (Decidable (48 ≤ c.toNat ∧ c.toNat ≤ 57))

/-- The loop of `tuya_str2num`, which leaves at the first character that is no digit. -/
def str2numLoop : List UInt8 → ℕ → Option ℕ
  | [], value => some value
  | c :: cs, value =>
    if IsDigit c then str2numLoop cs (u32 (value * 10 + (c.toNat - 48))) else none

/-- `tuya_str2num`: the answer and `*number`. -/
def tuyaStr2num (number : ℕ) (str : List UInt8) : Bool × ℕ :=
  match str2numLoop str 0 with
  | some value => (true, value)
  | none => (false, number)

/-- The value of decimal digits, the most significant first. -/
def decimalValue (ds : List ℕ) : ℕ := Nat.ofDigits 10 ds.reverse

/-- The value of a string of digits. -/
def numberOf (str : List UInt8) : ℕ := decimalValue (str.map fun c => c.toNat - 48)

/-- **What a parser should do**: take exactly the numbers of 32 bits, and leave `*number` alone
where it takes nothing. -/
def ParsesNumber (number : ℕ) (str : List UInt8) : Prop :=
  tuyaStr2num number str =
    if str ≠ [] ∧ (∀ c ∈ str, IsDigit c) ∧ numberOf str < 2 ^ 32 then (true, numberOf str)
    else (false, number)

/-- One more digit, in 32 bits. -/
def addDigit (value digit : ℕ) : ℕ := u32 (value * 10 + digit)

theorem decimalValue_cons (d : ℕ) (ds : List ℕ) :
    decimalValue (d :: ds) = d * 10 ^ ds.length + decimalValue ds := by
  rw [decimalValue, reverse_cons, Nat.ofDigits_append, Nat.ofDigits_singleton,
    length_reverse, add_comm, mul_comm]
  rfl

/-- **Adding up digits** gives their value modulo `2 ^ 32`. -/
theorem foldl_addDigit (ds : List ℕ) {value : ℕ} (h : value < 2 ^ 32) :
    ds.foldl addDigit value = u32 (value * 10 ^ ds.length + decimalValue ds) := by
  induction ds generalizing value with
  | nil =>
    rw [length_nil, pow_zero, mul_one]
    exact (u32_of_lt h).symm
  | cons d ds ih =>
    have hmod : u32 (value * 10 + d) * 10 ^ ds.length + decimalValue ds ≡
        (value * 10 + d) * 10 ^ ds.length + decimalValue ds [MOD 2 ^ 32] :=
      ((Nat.mod_modEq _ _).mul_right _).add_right _
    have hvalue : (value * 10 + d) * 10 ^ ds.length + decimalValue ds =
        value * 10 ^ (ds.length + 1) + (d * 10 ^ ds.length + decimalValue ds) := by ring
    rw [foldl_cons, addDigit, ih (u32_lt _), decimalValue_cons, length_cons]
    exact hmod.trans (congrArg u32 hvalue)

theorem str2numLoop_eq (str : List UInt8) (value : ℕ) :
    str2numLoop str value =
      if ∀ c ∈ str, IsDigit c then
        some ((str.map fun c => c.toNat - 48).foldl addDigit value) else none := by
  induction str generalizing value with
  | nil => rw [if_pos fun c hc => absurd hc not_mem_nil]; rfl
  | cons c cs ih =>
    rw [str2numLoop]
    by_cases hc : IsDigit c
    · rw [if_pos hc, ih]
      by_cases hcs : ∀ c ∈ cs, IsDigit c
      · rw [if_pos hcs, if_pos (forall_mem_cons.mpr ⟨hc, hcs⟩)]
        rfl
      · rw [if_neg hcs, if_neg fun h => hcs (forall_mem_cons.mp h).2]
    · rw [if_neg hc, if_neg fun h => hc (forall_mem_cons.mp h).1]

/-- **What `tuya_str2num` does**: it takes every string of digits, the empty one too, modulo
`2 ^ 32`. -/
theorem tuyaStr2num_eq (number : ℕ) (str : List UInt8) :
    tuyaStr2num number str =
      if ∀ c ∈ str, IsDigit c then (true, u32 (numberOf str)) else (false, number) := by
  rw [tuyaStr2num, str2numLoop_eq]
  by_cases h : ∀ c ∈ str, IsDigit c
  · rw [if_pos h, if_pos h, foldl_addDigit _ (by decide), zero_mul, zero_add]
    rfl
  · rw [if_neg h, if_neg h]

/-- **`tuya_str2num` parses a sequence if and only if it holds something that is no digit, or is
a number below `2 ^ 32`.** -/
theorem tuyaStr2num_iff (number : ℕ) (str : List UInt8) :
    ParsesNumber number str ↔
      (∃ c ∈ str, ¬ IsDigit c) ∨ (str ≠ [] ∧ numberOf str < 2 ^ 32) := by
  rw [ParsesNumber, tuyaStr2num_eq]
  by_cases h : ∀ c ∈ str, IsDigit c
  · have hnone : ¬ ∃ c ∈ str, ¬ IsDigit c := fun ⟨c, hc, hn⟩ => hn (h c hc)
    rw [if_pos h, or_iff_right hnone]
    by_cases hok : str ≠ [] ∧ numberOf str < 2 ^ 32
    · rw [if_pos ⟨hok.1, h, hok.2⟩, u32_of_lt hok.2]
      exact iff_of_true rfl hok
    · rw [if_neg fun hall => hok ⟨hall.1, hall.2.2⟩]
      exact iff_of_false (fun he => Bool.noConfusion (congrArg Prod.fst he)) hok
  · rw [if_neg h, if_neg fun hall => h hall.2.1]
    exact iff_of_true rfl (.inl (by simpa using h))

/-- The empty string, and `4294967296`. -/
theorem str2num_nil_and_2_pow_32 :
    tuyaStr2num 7 [] = (true, 0) ∧
      tuyaStr2num 7 [52, 50, 57, 52, 57, 54, 55, 50, 57, 54] = (true, 0) ∧
      ¬ ParsesNumber 7 [] ∧ ¬ ParsesNumber 7 [52, 50, 57, 52, 57, 54, 55, 50, 57, 54] := by
  refine ⟨by decide, by decide, ?_, ?_⟩
  · intro h
    rw [ParsesNumber, if_neg fun hall => hall.1 rfl] at h
    exact absurd h (by decide)
  · intro h
    have hvalue : numberOf [52, 50, 57, 52, 57, 54, 55, 50, 57, 54] = 2 ^ 32 := by decide
    rw [ParsesNumber, hvalue, if_neg fun hall => absurd hall.2.2 (lt_irrefl _)] at h
    exact absurd h (by decide)

/-! ### Digits in an array -/

/-- One pass of `tuya_buff_reverse`. -/
def reversePass (len : ℕ) (buf : ℕ → UInt8) (i : ℕ) : ℕ → UInt8 :=
  update (update buf i (buf (len - 1 - i))) (len - 1 - i) (buf i)

def tuyaBuffReverse (buf : ℕ → UInt8) (len : ℕ) : ℕ → UInt8 :=
  (List.range (len / 2)).foldl (reversePass len) buf

/-- The loop of `tuya_int2intArray` that counts the digits, over `tmp` and `i`. -/
def countBody (v : ℕ × ℕ) : ℕ × ℕ ⊕ ℕ :=
  let tmp := v.1 / 10
  let i := (v.2 + 1) % 256
  if tmp ≠ 0 then .inl (tmp, i) else .inr i

/-- The loop of `tuya_int2intArray` that writes the digits, over `tmp`, `i` and `intArray`. -/
def fillBody (v : ℕ × ℕ × (ℕ → UInt8)) : ℕ × ℕ × (ℕ → UInt8) ⊕ ℕ × (ℕ → UInt8) :=
  if v.1 ≠ 0 then
    .inl (v.1 / 10, (v.2.1 + 1) % 256, update v.2.2 v.2.1 (UInt8.ofNat (v.1 % 10)))
  else .inr v.2

/-- `tuya_int2intArray`: the number of digits and the array. -/
def tuyaInt2intArray (passes num : ℕ) (intArray : ℕ → UInt8) (len : ℕ) :
    Option (ℕ × (ℕ → UInt8)) :=
  (Loop.runFor countBody passes (num, 0)).bind fun i =>
    if len < i then some (0, intArray)
    else (Loop.runFor fillBody passes (num, 0, intArray)).map fun r =>
      (r.1, tuyaBuffReverse r.2 r.1)

/-- The loop of `tuya_intArray2int`, over `i`, `num` and the places read. -/
def intArrayBody (intArray : ℕ → UInt8) (bound : ℕ) (v : ℕ × ℕ × List ℕ) :
    ℕ × ℕ × List ℕ ⊕ ℕ × List ℕ :=
  if v.1 < bound then
    .inl ((v.1 + 1) % 256, u32 (v.2.1 * 10 + (intArray v.1).toNat), v.2.2 ++ [v.1])
  else .inr v.2

/-- `tuya_intArray2int`: the number and the places of the array that are read. -/
def tuyaIntArray2int (passes : ℕ) (intArray : ℕ → UInt8) (index len : ℕ) :
    Option (ℕ × List ℕ) :=
  if len ≤ index then some (2 ^ 32 - 1, [])
  else Loop.runFor (intArrayBody intArray (u32 (index + len))) passes (index % 256, 0, [])

/-- The decimal digits of a number, the most significant first. -/
def decimalDigits (num : ℕ) : List ℕ := if num = 0 then [0] else (Nat.digits 10 num).reverse

/-- **The digits of `num` go into an array and come back**: their number is returned, they are
what changes in the array, and they are read as `num`. -/
def RoundTrips (num : ℕ) (intArray : ℕ → UInt8) (len : ℕ) : Prop :=
  ∃ passes written, 1 ≤ (decimalDigits num).length ∧
    tuyaInt2intArray passes num intArray len = some ((decimalDigits num).length, written) ∧
    (∀ j, written j =
      if j < (decimalDigits num).length then UInt8.ofNat ((decimalDigits num).getD j 0)
      else intArray j) ∧
    ∃ passes' reads,
      tuyaIntArray2int passes' written 0 (decimalDigits num).length = some (num, reads)

/-- **Reading a number ends and stays in the array.** -/
def ReadsInside (intArray : ℕ → UInt8) (index len : ℕ) : Prop :=
  ∃ passes num reads, tuyaIntArray2int passes intArray index len = some (num, reads) ∧
    ∀ i ∈ reads, i < len

/-- The array after some passes of the reversal. -/
theorem foldl_reversePass (len m : ℕ) (buf : ℕ → UInt8) (hm : m ≤ len / 2) (j : ℕ) :
    (List.range m).foldl (reversePass len) buf j =
      if j < m ∨ (len - m ≤ j ∧ j < len) then buf (len - 1 - j) else buf j := by
  induction m generalizing j with
  | zero => exact (if_neg (by omega)).symm
  | succ m ih =>
    -- the two places of this pass still hold what they held
    have hi : (List.range m).foldl (reversePass len) buf m = buf m := by
      rw [ih (by omega), if_neg (by omega)]
    have hi' : (List.range m).foldl (reversePass len) buf (len - 1 - m) = buf (len - 1 - m) := by
      rw [ih (by omega), if_neg (by omega)]
    rw [range_succ, foldl_append, foldl_cons, foldl_nil, reversePass, hi, hi',
      update_apply]
    by_cases h1 : j = len - 1 - m
    · rw [if_pos h1, if_pos (by omega), h1]
      congr 1
      omega
    rw [if_neg h1, update_apply]
    by_cases h2 : j = m
    · rw [if_pos h2, if_pos (by omega), h2]
    · rw [if_neg h2, ih (by omega)]
      refine if_congr ?_ rfl rfl
      omega

/-- **The reversal** turns the first `len` bytes around and leaves the rest alone. -/
theorem tuyaBuffReverse_apply (buf : ℕ → UInt8) (len j : ℕ) :
    tuyaBuffReverse buf len j = if j < len then buf (len - 1 - j) else buf j := by
  rw [tuyaBuffReverse, foldl_reversePass len _ buf le_rfl]
  by_cases hj : j < len
  · rw [if_pos hj]
    by_cases hmid : j < len / 2 ∨ (len - len / 2 ≤ j ∧ j < len)
    · rw [if_pos hmid]
    · -- the middle byte stays where it is
      rw [if_neg hmid]
      congr 1
      omega
  · rw [if_neg hj, if_neg (by omega)]

theorem length_decimalDigits (num : ℕ) :
    (decimalDigits num).length = max 1 (Nat.digits 10 num).length := by
  rw [decimalDigits]
  split
  next h => rw [h, Nat.digits_zero]; rfl
  next h =>
    have hne : Nat.digits 10 num ≠ [] := Nat.digits_ne_nil_iff_ne_zero.mpr h
    have := length_pos_iff.mpr hne
    rw [length_reverse]
    omega

/-- The digits of a number and of a tenth of it. -/
theorem length_digits_div (h : n ≠ 0) :
    (Nat.digits 10 n).length = (Nat.digits 10 (n / 10)).length + 1 := by
  rw [Nat.digits_def' (by decide) (Nat.pos_of_ne_zero h), length_cons]

/-- The first loop counts the digits; zero has one. -/
theorem exists_count (n i : ℕ) (h : i + max 1 (Nat.digits 10 n).length < 256) :
    ∃ passes, Loop.runFor countBody passes (n, i) =
      some (i + max 1 (Nat.digits 10 n).length) := by
  induction n using Nat.strong_induction_on generalizing i with
  | _ n ih =>
  have hi : (i + 1) % 256 = i + 1 := Nat.mod_eq_of_lt (by omega)
  by_cases hn : n / 10 = 0
  · -- the last digit
    have hlen : (Nat.digits 10 n).length ≤ 1 := by
      rcases eq_zero_or_pos n with rfl | hpos
      · rw [Nat.digits_zero]; exact Nat.zero_le 1
      · rw [length_digits_div (by omega), hn, Nat.digits_zero]; exact le_rfl
    have hbody : countBody (n, i) = .inr (i + 1) := by
      rw [countBody]
      rw [if_neg (not_not_intro hn), hi]
    exact ⟨1, by rw [Loop.runFor_of_inr hbody, max_eq_left hlen]⟩
  · have hpos : n ≠ 0 := by
      rintro rfl
      exact hn rfl
    have hlen := length_digits_div hpos
    have hlen' : 1 ≤ (Nat.digits 10 (n / 10)).length :=
      length_pos_iff.mpr (Nat.digits_ne_nil_iff_ne_zero.mpr hn)
    have hbody : countBody (n, i) = .inl (n / 10, i + 1) := by
      rw [countBody]
      rw [if_pos hn, hi]
    obtain ⟨passes, hrun⟩ := ih (n / 10) (by omega) (i + 1) (by omega)
    refine ⟨passes + 1, ?_⟩
    rw [Loop.runFor_of_inl hbody, hrun]
    congr 1
    omega

/-- The second loop writes the digits, the least significant first; zero has none. -/
theorem exists_fill (n i : ℕ) (a : ℕ → UInt8) (h : i + (Nat.digits 10 n).length < 256) :
    ∃ passes, Loop.runFor fillBody passes (n, i, a) =
      some (i + (Nat.digits 10 n).length, fun j =>
        if i ≤ j ∧ j < i + (Nat.digits 10 n).length then
          UInt8.ofNat ((Nat.digits 10 n).getD (j - i) 0) else a j) := by
  induction n using Nat.strong_induction_on generalizing i a with
  | _ n ih =>
  by_cases hn : n = 0
  · have hbody : fillBody (n, i, a) = .inr (i, a) := if_neg (not_not_intro hn)
    refine ⟨1, ?_⟩
    rw [Loop.runFor_of_inr hbody, hn, Nat.digits_zero, length_nil, add_zero]
    refine congrArg some (Prod.ext rfl (funext fun j => ?_))
    exact (if_neg (by omega)).symm
  · have hlen := length_digits_div hn
    have hdigits := Nat.digits_def' (b := 10) (by decide) (Nat.pos_of_ne_zero hn)
    have hbody : fillBody (n, i, a) =
        .inl (n / 10, i + 1, update a i (UInt8.ofNat (n % 10))) := by
      rw [fillBody]
      rw [if_pos hn, Nat.mod_eq_of_lt (by omega : i + 1 < 256)]
    obtain ⟨passes, hrun⟩ := ih (n / 10) (by omega) (i + 1)
      (update a i (UInt8.ofNat (n % 10))) (by omega)
    refine ⟨passes + 1, ?_⟩
    rw [Loop.runFor_of_inl hbody, hrun]
    refine congrArg some (Prod.ext (by dsimp only; omega) (funext fun j => ?_))
    dsimp only
    by_cases hji : j = i
    · -- the digit of this pass
      rw [if_neg (by omega), if_pos (by omega), hji, update_self, Nat.sub_self, hdigits,
        getD_cons_zero]
    rw [update_of_ne hji]
    by_cases hlater : i + 1 ≤ j ∧ j < i + 1 + (Nat.digits 10 (n / 10)).length
    · rw [if_pos hlater, if_pos (by omega), hdigits, show j - i = j - (i + 1) + 1 by omega,
        getD_cons_succ]
    · rw [if_neg hlater, if_neg (by omega)]

/-- **What `tuya_int2intArray` writes** for a number with digits. -/
theorem exists_int2intArray (a : ℕ → UInt8) (hnum : num ≠ 0) (hlen : len < 256)
    (hd : (decimalDigits num).length ≤ len) :
    ∃ passes written,
      tuyaInt2intArray passes num a len = some ((decimalDigits num).length, written) ∧
      ∀ j, written j =
        if j < (decimalDigits num).length then UInt8.ofNat ((decimalDigits num).getD j 0)
        else a j := by
  have hlen1 : 1 ≤ (Nat.digits 10 num).length :=
    length_pos_iff.mpr (Nat.digits_ne_nil_iff_ne_zero.mpr hnum)
  have hk : (decimalDigits num).length = (Nat.digits 10 num).length := by
    rw [length_decimalDigits, max_eq_right hlen1]
  obtain ⟨m, hcount⟩ := exists_count num 0 (by omega)
  obtain ⟨filled, hfilled⟩ : ∃ filled : ℕ → UInt8, filled = fun j =>
      if 0 ≤ j ∧ j < (Nat.digits 10 num).length then
        UInt8.ofNat ((Nat.digits 10 num).getD (j - 0) 0) else a j := ⟨_, rfl⟩
  obtain ⟨n, hfill⟩ := exists_fill num 0 a (by omega)
  rw [zero_add, ← hfilled] at hfill
  refine ⟨max m n, tuyaBuffReverse filled (Nat.digits 10 num).length, ?_, ?_⟩
  · rw [tuyaInt2intArray, Loop.runFor_mono hcount (le_max_left m n), Option.bind_some,
      if_neg (by omega), Loop.runFor_mono hfill (le_max_right m n), Option.map_some, hk]
  · intro j
    rw [tuyaBuffReverse_apply, hk, decimalDigits, if_neg hnum, hfilled]
    dsimp only
    by_cases hj : j < (Nat.digits 10 num).length
    · rw [if_pos hj, if_pos hj, if_pos (by omega), Nat.sub_zero,
        getD_eq_getElem _ _ (by omega),
        getD_eq_getElem _ _ (by rw [length_reverse]; exact hj), getElem_reverse]
    · rw [if_neg hj, if_neg hj, if_neg (by omega)]

/-- **A read of `intArray` ends**, as long as its counter does not wrap. -/
theorem exists_intArrayLoop (a : ℕ → UInt8) {bound : ℕ} (num : ℕ) (reads : List ℕ)
    (hi : i ≤ bound) (hb : bound < 256) :
    ∃ passes, Loop.runFor (intArrayBody a bound) passes (i, num, reads) =
      some (((List.range' i (bound - i)).map fun j => (a j).toNat).foldl addDigit num,
        reads ++ List.range' i (bound - i)) := by
  induction hk : bound - i generalizing i num reads with
  | zero =>
    have hbody : intArrayBody a bound (i, num, reads) = .inr (num, reads) :=
      if_neg (by dsimp only; omega)
    refine ⟨1, ?_⟩
    rw [Loop.runFor_of_inr hbody, List.range'_zero, append_nil]
    rfl
  | succ k ih =>
    have hbody : intArrayBody a bound (i, num, reads) =
        .inl (i + 1, addDigit num (a i).toNat, reads ++ [i]) := by
      rw [intArrayBody]
      rw [if_pos (by omega), Nat.mod_eq_of_lt (by omega : i + 1 < 256)]
      rfl
    obtain ⟨passes, hrun⟩ := ih (i := i + 1) (addDigit num (a i).toNat)
      (reads ++ [i]) (by omega) (by omega)
    refine ⟨passes + 1, ?_⟩
    rw [Loop.runFor_of_inl hbody, hrun, List.range'_succ, map_cons, foldl_cons,
      append_assoc]
    rfl

/-- The digits in front of an array add up to the number they are of. -/
theorem foldl_decimalDigits (hnum : num < 2 ^ 32) :
    (decimalDigits num).foldl addDigit 0 = num := by
  have hvalue : decimalValue (decimalDigits num) = num := by
    rw [decimalDigits]
    split
    next h => rw [h]; rfl
    next h => rw [decimalValue, reverse_reverse, Nat.ofDigits_digits]
  rw [foldl_addDigit _ (by decide), zero_mul, zero_add, hvalue, u32_of_lt hnum]

theorem roundTrips_of_ne_zero (a : ℕ → UInt8) (hnum : num < 2 ^ 32)
    (hlen : len < 256) (hd : (decimalDigits num).length ≤ len) (h : num ≠ 0) :
    RoundTrips num a len := by
  obtain ⟨passes, written, hrun, hwritten⟩ := exists_int2intArray a h hlen hd
  have hk : 1 ≤ (decimalDigits num).length := by
    rw [length_decimalDigits]
    exact le_max_left _ _
  -- what is read are the digits
  have hmap : (List.range' 0 (decimalDigits num).length).map (fun j => (written j).toNat) =
      decimalDigits num := by
    refine ext_getElem (by simp) fun j h1 h2 => ?_
    have hdigit : (decimalDigits num)[j] < 10 := by
      have hmem := getElem_mem h2
      revert hmem
      generalize (decimalDigits num)[j] = d
      rw [decimalDigits, if_neg h, mem_reverse]
      exact Nat.digits_lt_base (by decide)
    rw [getElem_map, getElem_range', hwritten, if_pos (by omega), zero_add,
      one_mul, getD_eq_getElem _ _ h2, UInt8.toNat_ofNat', Nat.mod_eq_of_lt (by omega)]
  obtain ⟨passes', hread⟩ := exists_intArrayLoop written 0 []
    (Nat.zero_le (decimalDigits num).length) (by omega)
  rw [Nat.sub_zero, hmap, foldl_decimalDigits hnum] at hread
  refine ⟨passes, written, hk, hrun, hwritten, passes',
    [] ++ List.range' 0 (decimalDigits num).length, ?_⟩
  rw [tuyaIntArray2int, if_neg (by omega), zero_add, u32_of_lt (by omega), Nat.zero_mod, hread]

/-- Zero has a digit, and none is returned. -/
theorem not_roundTrips_zero (a : ℕ → UInt8) (len : ℕ) : ¬ RoundTrips 0 a len := by
  rintro ⟨passes, written, -, hrun, -⟩
  have hfill : Loop.runFor fillBody 1 (0, 0, a) = some (0, a) := rfl
  obtain ⟨i, hi, hrun⟩ := Option.bind_eq_some_iff.mp hrun
  split at hrun
  · exact zero_ne_one (congrArg Prod.fst (Option.some.inj hrun))
  · obtain ⟨r, hr, hret⟩ := Option.map_eq_some_iff.mp hrun
    have hr0 : r = (0, a) := Loop.runFor_unique hr hfill
    rw [hr0] at hret
    exact zero_ne_one (congrArg Prod.fst hret)

/-- From a later place on, the loop reads behind the array or never ends. -/
theorem readsInside_iff {a : ℕ → UInt8} {index : ℕ} (hlen : len < 256) (hindex : index < len) :
    ReadsInside a index len ↔ index = 0 := by
  have hstart : index % 256 = index := Nat.mod_eq_of_lt (by omega)
  have hbound : u32 (index + len) = index + len := u32_of_lt (by omega)
  rw [ReadsInside]
  simp only [tuyaIntArray2int, if_neg (not_le.mpr hindex), hstart, hbound]
  constructor
  · rintro ⟨passes, num, reads, hrun, hreads⟩
    by_contra hpos
    rcases lt_or_ge (index + len) 256 with hsmall | hlarge
    · obtain ⟨passes', hrun'⟩ :=
        exists_intArrayLoop a 0 [] (by omega : index ≤ index + len) hsmall
      have heq : reads = [] ++ List.range' index (index + len - index) :=
        congrArg Prod.snd (Loop.runFor_unique hrun hrun')
      have hmem : len ∈ reads := by
        rw [heq, nil_append, mem_range'_1]
        omega
      exact absurd (hreads len hmem) (lt_irrefl _)
    · -- the counter never reaches the bound
      have hnone : Loop.runFor (intArrayBody a (index + len)) passes (index, 0, []) = none := by
        refine Loop.runFor_of_stuck (P := fun v => v.1 < 256) (fun v hv => ?_)
          (by dsimp only; omega) passes
        exact ⟨_, if_pos (by omega), Nat.mod_lt _ (by decide)⟩
      rw [hnone] at hrun
      cases hrun
  · rintro rfl
    obtain ⟨passes, hrun⟩ :=
      exists_intArrayLoop a 0 [] (Nat.zero_le (0 + len)) (by omega)
    refine ⟨passes, _, _, hrun, fun i hi => ?_⟩
    rw [nil_append, mem_range'_1] at hi
    omega

/-- **The digits of a number come back if and only if it is not zero, and reading a number ends
inside its array if and only if it starts at the first place.** -/
theorem intArray_iff (num : ℕ) (a : ℕ → UInt8) (len : ℕ) :
    (num < 2 ^ 32 → len < 2 ^ 8 → (decimalDigits num).length ≤ len →
      (RoundTrips num a len ↔ num ≠ 0)) ∧
    ∀ index, len < 2 ^ 8 → index < len → (ReadsInside a index len ↔ index = 0) := by
  refine ⟨fun hnum hlen hd => ⟨?_, ?_⟩, fun index hlen hindex => ?_⟩
  · rintro h rfl
    exact not_roundTrips_zero a len h
  · exact roundTrips_of_ne_zero a hnum hlen hd
  · exact readsInside_iff hlen hindex

/-- `507`, and three digits from the first on. -/
theorem intArray_507 :
    RoundTrips 507 (fun _ => 0xFF) 4 ∧ ReadsInside (fun _ => 1) 0 3 :=
  ⟨((intArray_iff 507 _ 4).1 (by decide) (by decide) (by decide)).mpr (by decide),
    ((intArray_iff 0 _ 3).2 0 (by decide) (by decide)).mpr rfl⟩

/-- `0`, for which nothing is returned, and three digits from the second on, of which a fourth is
read. -/
theorem intArray_zero_and_second :
    ¬ RoundTrips 0 (fun _ => 0xFF) 4 ∧ ¬ ReadsInside (fun _ => 1) 1 3 ∧
      tuyaIntArray2int 9 (fun _ => 1) 1 3 = some (111, [1, 2, 3]) :=
  ⟨not_roundTrips_zero _ 4, fun h => absurd ((readsInside_iff (by decide) (by decide)).mp h)
    (by decide), by decide⟩

end Tuya

end Gd32
