import Gd32Firmware.Lib.Delimited
import Gd32Firmware.Util.StrSearch

/-!
# Strings in the license

`__license_json_get_string` looks for the value of a key in a JSON object that is not a C string.
It does not parse the object: it looks for the key between two quotes, wherever that is, and reads
on from there.

What it makes of an object is told by the pieces between the quotes. The keys, the values and what
stands between them are pieces alike, and the first one that is the key is taken
(`Tuya.licenseJsonGetString_text`). `Tuya.extracts_iff` says for which objects, keys and
buffers that is the value of the key.
-/

namespace Gd32

variable {json : List UInt8}

variable {i : ℕ} {out v k : List UInt8} {ms : List Member} {ps : List (List UInt8)} {o : JsonObject}

namespace Tuya

open Delimited

/-! ### The function -/

/-- An object of the language: the compiler allows none of more than `PTRDIFF_MAX` bytes, so that
no sum below wraps around. -/
structure CObject where
  bytes : List UInt8
  length_lt : bytes.length < 2 ^ 31

/-- `memcmp(&json[i], key, key_len) == 0`; `none` if it reads beyond the end. -/
def memcmpZero (json : List UInt8) (i : ℕ) (key : List UInt8) : Option Bool :=
  if i + key.length ≤ json.length then some ((json.drop i).take key.length = key) else none

/-- The test of the loop that looks for the key. -/
def keyStandsAt (json : List UInt8) (key : CString) (i : ℕ) : Option Bool :=
  json[i]?.bind fun c =>
    if c ≠ 34 then some false else
      json[i + key.len + 1]?.bind fun c =>
        if c ≠ 34 then some false else memcmpZero json (i + 1) key.bytes

/-- The loop that looks for the key, for a number of passes: where `i` is when it ends. -/
def locateKey (json : List UInt8) (key : CString) : ℕ → ℕ → Option ℕ
  | 0, _ => none
  | n + 1, i =>
    if i + key.len + 2 ≤ json.length then
      (keyStandsAt json key i).bind fun hit => if hit then some i else locateKey json key n (i + 1)
    else some i

/-- `while ((i < json_len) && …) i++`, for a number of passes. -/
def skipWhile (p : UInt8 → Bool) (json : List UInt8) : ℕ → ℕ → Option ℕ
  | 0, _ => none
  | n + 1, i =>
    if i < json.length then
      json[i]?.bind fun c => if p c then skipWhile p json n (i + 1) else some i
    else some i

/-- `(i < json_len) && (json[i] == c)`. -/
def standsAt (json : List UInt8) (i : ℕ) (c : UInt8) : Option Bool :=
  if i < json.length then json[i]?.map (· = c) else some false

/-- `memcpy(out, &json[start], n)`; `none` if it reads or writes beyond an end. -/
def copyOut (json out : List UInt8) (start n : ℕ) : Option (List UInt8) :=
  if start + n ≤ json.length ∧ n ≤ out.length then
    some ((json.drop start).take n ++ out.drop n)
  else none

/-- `out[n] = c`; `none` beyond the end. -/
def storeAt (out : List UInt8) (n : ℕ) (c : UInt8) : Option (List UInt8) :=
  if n < out.length then some (out.set n c) else none

/-- The end of `__license_json_get_string`, from the first byte of the value on. -/
def readValue (json out : List UInt8) (start : ℕ) : Option (ℤ × List UInt8) :=
  (skipWhile (· ≠ 34) json (json.length + 1) start).bind fun i =>
    if json.length ≤ i then some (-1, out)
    else if out.length ≤ i - start then some (-1, out)
    else
      (copyOut json out start (i - start)).bind fun out =>
        (storeAt out (i - start) 0).bind fun out => some ((i - start : ℕ), out)

/-- `__license_json_get_string`: what is returned, and what the buffer `out` holds afterwards;
`none` if a byte is read or written outside of the two. The pointers are not null. -/
def licenseJsonGetString (json : CObject) (key : CString) (out : List UInt8) :
    Option (ℤ × List UInt8) :=
  let json := json.bytes
  if out.length < 2 then some (-1, out)
  else if key.len = 0 || json.length < key.len + 2 then some (-1, out)
  else
    (locateKey json key (json.length + 1) 0).bind fun i =>
    if json.length < i + key.len + 2 then some (-1, out) else
    (skipWhile (· = 32) json (json.length + 1) (i + key.len + 2)).bind fun i =>
    (standsAt json i 58).bind fun colon =>
    if !colon then some (-1, out) else
    (skipWhile (· = 32) json (json.length + 1) (i + 1)).bind fun i =>
    (standsAt json i 34).bind fun quote =>
    if !quote then some (-1, out) else readValue json out (i + 1)

/-! ### The loops -/

/-- The key between its quotes. -/
def quoted (key : CString) : List UInt8 := 34 :: (key.bytes ++ [34])

theorem length_quoted (key : CString) : (quoted key).length = key.len + 2 := by
  simp [quoted, CString.len]

theorem keyStandsAt_eq {key : CString}
    (h : i + key.len + 2 ≤ json.length) :
    keyStandsAt json key i = some (decide (quoted key <+: json.drop i)) := by
  have hi : i < json.length := by omega
  have hj : i + key.len + 1 < json.length := by omega
  have hlen : key.bytes.length = key.len := rfl
  have hdrop : json.drop i = json[i] :: ((json.drop (i + 1)).take key.len ++
      json[i + key.len + 1] :: json.drop (i + key.len + 2)) := by
    rw [List.drop_eq_getElem_cons hi, ← List.drop_eq_getElem_cons hj,
      show i + key.len + 1 = i + 1 + key.len by omega,
      ← List.drop_drop (i := key.len) (j := i + 1), List.take_append_drop]
  have htake : ((json.drop (i + 1)).take key.len).length = key.bytes.length := by
    rw [List.length_take, List.length_drop, hlen]
    omega
  have hiff : quoted key <+: json.drop i ↔
      json[i] = 34 ∧ json[i + key.len + 1] = 34 ∧ (json.drop (i + 1)).take key.len = key.bytes := by
    rw [hdrop, quoted, List.cons_prefix_cons]
    generalize (json.drop (i + 1)).take key.len = w at htake
    constructor
    · rintro ⟨h1, t, ht⟩
      rw [List.append_assoc] at ht
      obtain ⟨hw, ht⟩ := List.append_inj ht htake.symm
      exact ⟨h1.symm, (List.cons.inj ht).1.symm, hw.symm⟩
    · rintro ⟨h1, h2, rfl⟩
      exact ⟨h1.symm, json.drop (i + key.len + 2), by rw [h2, List.append_assoc]; rfl⟩
  rw [keyStandsAt, List.getElem?_eq_getElem hi, Option.bind_some, List.getElem?_eq_getElem hj]
  by_cases h1 : json[i] = 34
  · rw [if_neg (not_not.mpr h1), Option.bind_some]
    by_cases h2 : json[i + key.len + 1] = 34
    · rw [if_neg (not_not.mpr h2), memcmpZero, if_pos (by omega)]
      simp only [hiff, h1, h2, true_and, hlen]
    · simp [hiff, h2]
  · simp [hiff, h1]

/-- The loop that looks for the key finds what is behind the first place where it stands, or goes
to the end. -/
theorem locateKey_eq (key : CString) {n : ℕ} (hi : i ≤ json.length)
    (hn : json.length < n + i) :
    ∃ j, locateKey json key n i = some j ∧
      (after (quoted key) (json.drop i) = none ∧ json.length < j + key.len + 2 ∨
        j + key.len + 2 ≤ json.length ∧
          after (quoted key) (json.drop i) = some (json.drop (j + key.len + 2))) := by
  induction n generalizing i with
  | zero => omega
  | succ n ih =>
    rw [locateKey]
    by_cases hfit : i + key.len + 2 ≤ json.length
    · have hil : i < json.length := by omega
      rw [if_pos hfit, keyStandsAt_eq hfit, Option.bind_some]
      have hcons := List.drop_eq_getElem_cons hil
      by_cases hit : quoted key <+: json.drop i
      · refine ⟨i, by simp [hit], .inr ⟨hfit, ?_⟩⟩
        rw [hcons] at hit ⊢
        rw [after, if_pos hit, ← hcons, List.drop_drop, length_quoted, Nat.add_assoc]
      · obtain ⟨j, hj, hcases⟩ := ih (i := i + 1) (by omega) (by omega)
        refine ⟨j, by simpa [hit] using hj, ?_⟩
        rw [hcons] at hit ⊢
        rw [after, if_neg hit]
        exact hcases
    · rw [if_neg hfit]
      refine ⟨i, rfl, .inl ⟨?_, by omega⟩⟩
      -- behind `i` there are fewer bytes than the quoted key has
      refine after_eq_none_of_length (by rw [quoted]; exact List.cons_ne_nil _ _) ?_
      rw [length_quoted, List.length_drop]
      omega

/-- A loop that skips bytes skips as many as it can. -/
theorem skipWhile_eq {p : UInt8 → Bool} {n : ℕ} (hi : i ≤ json.length)
    (hn : json.length < n + i) :
    ∃ j, skipWhile p json n i = some j ∧ i ≤ j ∧ j ≤ json.length ∧
      json.drop j = (json.drop i).dropWhile p ∧
      (json.drop i).take (j - i) = (json.drop i).takeWhile p := by
  induction n generalizing i with
  | zero => omega
  | succ n ih =>
    rw [skipWhile]
    by_cases hil : i < json.length
    · have hcons := List.drop_eq_getElem_cons hil
      rw [if_pos hil, List.getElem?_eq_getElem hil, Option.bind_some]
      by_cases hp : p json[i] = true
      · obtain ⟨j, hj, hij, hjl, hdrop, htake⟩ := ih (i := i + 1) (by omega) (by omega)
        refine ⟨j, by rw [if_pos hp, hj], by omega, hjl, ?_, ?_⟩
        · rw [hcons, List.dropWhile_cons_of_pos hp, hdrop]
        · rw [hcons, List.takeWhile_cons_of_pos hp, show j - i = j - (i + 1) + 1 by omega,
            List.take_succ_cons, htake]
      · refine ⟨i, by rw [if_neg hp], le_rfl, hi, ?_, ?_⟩
        · rw [hcons, List.dropWhile_cons_of_neg hp]
        · rw [hcons, List.takeWhile_cons_of_neg hp, Nat.sub_self, List.take_zero]
    · rw [if_neg hil, List.drop_eq_nil_of_le (by omega)]
      exact ⟨i, rfl, le_rfl, hi, by rw [List.drop_eq_nil_of_le (by omega)]; rfl, by simp⟩

theorem standsAt_eq (json : List UInt8) (i : ℕ) (c : UInt8) :
    standsAt json i c = some (decide ((json.drop i).head? = some c)) := by
  rw [standsAt]
  by_cases hi : i < json.length
  · rw [if_pos hi, List.getElem?_eq_getElem hi, Option.map_some, List.drop_eq_getElem_cons hi,
      List.head?_cons]
    simp only [Option.some.injEq]
  · rw [if_neg hi, (List.drop_eq_nil_iff).mpr (not_lt.mp hi)]
    simp

/-! ### What is behind the key -/

/-- The bytes up to the next quote, if there is one. -/
def upToQuote (s : List UInt8) : Option (List UInt8) :=
  if 34 ∈ s then some (s.takeWhile (· ≠ 34)) else none

/-- What is behind a byte that may have spaces in front. -/
def behindByte (c : UInt8) (s : List UInt8) : Option (List UInt8) :=
  match skipSpaces s with
  | [] => none
  | b :: t => if b = c then some t else none

/-- The value behind a key: after a colon, between quotes. -/
def valueBehind (s : List UInt8) : Option (List UInt8) :=
  (behindByte 58 s).bind fun s => (behindByte 34 s).bind upToQuote

/-- The value behind the first place where a key stands between quotes. -/
def valueOf (json : List UInt8) (key : CString) : Option (List UInt8) :=
  (after (quoted key) json).bind valueBehind

/-- What is returned for a value, or for none. -/
def answer (out : List UInt8) : Option (List UInt8) → ℤ × List UInt8
  | some v =>
    if v.length < out.length then (v.length, v ++ 0 :: out.drop (v.length + 1)) else (-1, out)
  | none => (-1, out)

/-- Skipping the spaces and looking for a byte. -/
theorem skip_standsAt {start : ℕ} (hs : start ≤ json.length) (c : UInt8) :
    ∃ i, skipWhile (· = 32) json (json.length + 1) start = some i ∧
      (standsAt json i c = some false ∧ behindByte c (json.drop start) = none ∨
        standsAt json i c = some true ∧ i < json.length ∧
          behindByte c (json.drop start) = some (json.drop (i + 1))) := by
  obtain ⟨i, hi, -, hil, hdrop, -⟩ := skipWhile_eq
    (p := fun c : UInt8 => decide (c = 32)) (n := json.length + 1) hs (by omega)
  have hskip : skipSpaces (json.drop start) = json.drop i := hdrop.symm
  refine ⟨i, hi, ?_⟩
  rw [standsAt_eq, behindByte, hskip]
  rcases hil.lt_or_eq with hlt | rfl
  · rw [List.drop_eq_getElem_cons hlt, List.head?_cons]
    by_cases hc : json[i] = c
    · exact .inr ⟨by simp [hc], hlt, if_pos hc⟩
    · exact .inl ⟨by simp [hc], if_neg hc⟩
  · rw [List.drop_length]
    exact .inl ⟨rfl, rfl⟩

theorem readValue_eq {start : ℕ} (hs : start ≤ json.length) :
    readValue json out start = some (answer out (upToQuote (json.drop start))) := by
  obtain ⟨j, hj, hij, hjl, hdrop, htake⟩ :=
    skipWhile_eq (p := fun c : UInt8 => decide (c ≠ 34)) (n := json.length + 1) hs (by omega)
  rw [readValue, hj, Option.bind_some, upToQuote]
  by_cases hend : json.length ≤ j
  · -- no quote follows
    rw [List.drop_eq_nil_of_le hend] at hdrop
    have hno : 34 ∉ json.drop start := by
      intro hmem
      have hall := List.dropWhile_eq_nil_iff.mp hdrop.symm 34 hmem
      simp at hall
    rw [if_pos hend, if_neg hno]
    rfl
  · rw [List.drop_eq_getElem_cons (not_le.mp hend)] at hdrop
    have hmem : 34 ∈ json.drop start := by
      have hne : (json.drop start).dropWhile (fun c : UInt8 => decide (c ≠ 34)) ≠ [] := by
        rw [← hdrop]
        exact List.cons_ne_nil _ _
      have hhead := List.head_dropWhile_not (fun c : UInt8 => decide (c ≠ 34)) hne
      have h34 :
          ((json.drop start).dropWhile (fun c : UInt8 => decide (c ≠ 34))).head hne = 34 := by
        simpa using hhead
      rw [← h34]
      exact (List.dropWhile_sublist _).mem (List.head_mem hne)
    rw [if_neg hend, if_pos hmem]
    have hlen : ((json.drop start).takeWhile fun c : UInt8 => decide (c ≠ 34)).length =
        j - start := by
      rw [← htake, List.length_take, List.length_drop]
      omega
    rw [answer, hlen]
    by_cases hout : out.length ≤ j - start
    · rw [if_pos hout, if_neg (by omega)]
    · rw [if_neg hout, if_pos (by omega), copyOut, if_pos ⟨by omega, by omega⟩,
        Option.bind_some, htake, storeAt, if_pos, Option.bind_some]
      · rw [List.set_append_right _ _ (by rw [hlen]), hlen, Nat.sub_self,
          List.drop_eq_getElem_cons (not_le.mp hout), List.set_cons_zero]
      · rw [List.length_append, hlen, List.length_drop]
        omega

/-- **What the function does**, for every object: it stays in its two objects, and takes the value
behind the first place where the key stands between quotes. -/
theorem licenseJsonGetString_eq (json : CObject) (key : CString) (out : List UInt8) :
    licenseJsonGetString json key out =
      some (if out.length < 2 ∨ key.len = 0 then (-1, out)
        else answer out (valueOf json.bytes key)) := by
  rw [licenseJsonGetString, valueOf]
  by_cases hout : out.length < 2
  · rw [if_pos hout, if_pos (.inl hout)]
  by_cases hkey : key.len = 0
  · rw [if_neg hout, if_pos (by simp [hkey]), if_pos (.inr hkey)]
  rw [if_neg hout, if_neg (not_or.mpr ⟨hout, hkey⟩)]
  by_cases hshort : json.bytes.length < key.len + 2
  · rw [if_pos (by simp [hshort]), after_eq_none_of_length]
    · rfl
    · exact List.cons_ne_nil _ _
    · rwa [length_quoted]
  rw [if_neg (by simp [hkey, hshort])]
  obtain ⟨j, hj, ⟨hnone, hlt⟩ | ⟨hle, hsome⟩⟩ := locateKey_eq key
    (n := json.bytes.length + 1) (Nat.zero_le json.bytes.length) (by omega)
  · rw [List.drop_zero] at hnone
    rw [hj, Option.bind_some, if_pos hlt, hnone]
    rfl
  rw [List.drop_zero] at hsome
  rw [hj, Option.bind_some, if_neg (by omega), hsome, Option.bind_some, valueBehind]
  obtain ⟨a, ha, ⟨hcolon, hb⟩ | ⟨hcolon, hal, hb⟩⟩ := skip_standsAt hle 58
  · rw [ha, Option.bind_some, hcolon, hb]
    rfl
  rw [ha, Option.bind_some, hcolon, hb, Option.bind_some, Option.bind_some, Bool.not_true,
    if_neg Bool.false_ne_true]
  obtain ⟨i, hi, ⟨hquote, hq⟩ | ⟨hquote, hil, hq⟩⟩ :=
    skip_standsAt (show a + 1 ≤ json.bytes.length by omega) 34
  · rw [hi, Option.bind_some, hquote, hq]
    rfl
  rw [hi, Option.bind_some, hquote, hq, Option.bind_some, Option.bind_some, Bool.not_true,
    if_neg Bool.false_ne_true]
  exact readValue_eq (by omega)

theorem isSome_licenseJsonGetString (json : CObject) (key : CString) (out : List UInt8) :
    (licenseJsonGetString json key out).isSome := by
  rw [licenseJsonGetString_eq]
  rfl

/-! ### JSON objects -/

/-- Bytes that stand between quotes as they are. -/
structure Plain where
  bytes : List UInt8
  quote_not_mem : 34 ∉ bytes
  backslash_not_mem : 92 ∉ bytes
  zero_not_mem : 0 ∉ bytes

/-- A member of a JSON object, with the spaces around its colon and around the comma behind it. -/
structure Member where
  key : Plain
  value : Plain
  beforeColon : ℕ
  afterColon : ℕ
  beforeComma : ℕ
  afterComma : ℕ

/-- What stands between the key and the value. -/
def Member.colon (m : Member) : List UInt8 :=
  List.replicate m.beforeColon 32 ++ 58 :: List.replicate m.afterColon 32

/-- What stands between the value and the next key. -/
def Member.comma (m : Member) : List UInt8 :=
  List.replicate m.beforeComma 32 ++ 44 :: List.replicate m.afterComma 32

/-- The text of a member. -/
def Member.text (m : Member) : List UInt8 :=
  34 :: (m.key.bytes ++ 34 :: (m.colon ++ 34 :: (m.value.bytes ++ [34])))

/-- The text of some members. -/
def membersText : List Member → List UInt8
  | [] => []
  | [m] => m.text
  | m :: m' :: ms => m.text ++ (m.comma ++ membersText (m' :: ms))

/-- A JSON object whose values are strings. -/
structure JsonObject where
  members : List Member
  distinct : (members.map fun m => m.key.bytes).Nodup

/-- The text of an object. -/
def JsonObject.text (o : JsonObject) : List UInt8 := 123 :: (membersText o.members ++ [125])

/-- What stands in the text of an object behind each of its quotes. -/
def membersPieces : List Member → List (List UInt8)
  | [] => []
  | [m] => [m.key.bytes, m.colon, m.value.bytes, [125]]
  | m :: m' :: ms => m.key.bytes :: m.colon :: m.value.bytes :: m.comma :: membersPieces (m' :: ms)

theorem quote_not_mem_colon (m : Member) : 34 ∉ m.colon := by
  simp [Member.colon, List.mem_replicate]

theorem quote_not_mem_comma (m : Member) : 34 ∉ m.comma := by
  simp [Member.comma, List.mem_replicate]

theorem clean_membersPieces (ms : List Member) : Clean 34 (membersPieces ms) := by
  induction ms using membersPieces.induct with
  | case1 => simp [membersPieces, Clean]
  | case2 m =>
    simp [membersPieces, Clean, m.key.quote_not_mem, m.value.quote_not_mem, quote_not_mem_colon]
  | case3 m m' ms ih =>
    rw [membersPieces]
    simp only [Clean, List.forall_mem_cons]
    exact ⟨m.key.quote_not_mem, quote_not_mem_colon m, m.value.quote_not_mem,
      quote_not_mem_comma m, ih⟩

theorem membersText_eq (h : ms ≠ []) :
    membersText ms ++ [125] = delimit 34 (membersPieces ms) := by
  induction ms using membersPieces.induct with
  | case1 => exact absurd rfl h
  | case2 m => simp [membersText, membersPieces, Member.text]
  | case3 m m' ms ih =>
    rw [membersText, membersPieces, List.append_assoc, List.append_assoc, ih (List.cons_ne_nil _ _)]
    simp [Member.text]

/-- The text of an object is its pieces. -/
theorem exists_text_eq (o : JsonObject) :
    ∃ front, 34 ∉ front ∧ o.text = front ++ delimit 34 (membersPieces o.members) := by
  rw [JsonObject.text]
  by_cases hms : o.members = []
  · rw [hms]
    exact ⟨[123, 125], by decide, rfl⟩
  · rw [membersText_eq hms]
    exact ⟨[123], by decide, rfl⟩

/-! ### What is read of pieces -/

/-- A piece is a colon, alone but for spaces. -/
def isColon (p : List UInt8) : Bool :=
  match skipSpaces p with
  | 58 :: t => skipSpaces t = []
  | _ => false

/-- The value among the pieces behind a key: behind a colon, with a quote behind it. -/
def valuePiece : List (List UInt8) → Option (List UInt8)
  | c :: v :: _ :: _ => if isColon c then some v else none
  | _ => none

/-- Spaces are skipped up to a delimiter. -/
theorem skipSpaces_append (p : List UInt8) (ps : List (List UInt8)) :
    skipSpaces (p ++ delimit 34 ps) = skipSpaces p ++ delimit 34 ps := by
  rw [skipSpaces, skipSpaces]
  induction p with
  | nil =>
    cases ps with
    | nil => rfl
    | cons q qs => exact List.dropWhile_cons_of_neg (by decide)
  | cons b p ih =>
    by_cases hb : b = 32
    · rw [List.cons_append, List.dropWhile_cons_of_pos (by simpa using hb),
        List.dropWhile_cons_of_pos (by simpa using hb), ih]
    · rw [List.cons_append, List.dropWhile_cons_of_neg (by simpa using hb),
        List.dropWhile_cons_of_neg (by simpa using hb), List.cons_append]

theorem upToQuote_join (hv : 34 ∉ v) :
    upToQuote (v ++ delimit 34 ps) = if ps = [] then none else some v := by
  rw [upToQuote]
  cases ps with
  | nil => simp [hv]
  | cons p ps =>
    have hall : ∀ b ∈ v, (fun b : UInt8 => decide (b ≠ 34)) b = true := by
      intro b hb
      have hne : b ≠ 34 := fun h => hv (h ▸ hb)
      simpa using hne
    rw [delimit_cons, if_pos (by simp), if_neg (List.cons_ne_nil _ _),
      List.takeWhile_append_of_pos hall, List.takeWhile_cons_of_neg (by decide), List.append_nil]

/-- What is read behind a key is told by the pieces. -/
theorem valueBehind_join (h : Clean 34 ps) :
    valueBehind (join 34 ps) = valuePiece ps := by
  rcases ps with - | ⟨c, qs⟩
  · rfl
  rw [valueBehind, join, behindByte, skipSpaces_append]
  rcases hc : skipSpaces c with - | ⟨b, t⟩
  · -- nothing but spaces
    have hcolon : isColon c = false := by rw [isColon, hc]
    rcases qs with - | ⟨v, - | ⟨w, rs⟩⟩ <;> simp [valuePiece, hcolon]
  by_cases hb : b = 58
  swap
  · have hcolon : isColon c = false := by
      rw [isColon, hc]
      split
      · exact absurd (List.cons.inj ‹_›).1 hb
      · rfl
    rcases qs with - | ⟨v, - | ⟨w, rs⟩⟩ <;> simp [valuePiece, hcolon, hb]
  subst hb
  dsimp only [List.cons_append]
  rw [if_pos rfl, Option.bind_some, behindByte, skipSpaces_append]
  rcases ht : skipSpaces t with - | ⟨e, u⟩
  · -- nothing but spaces behind the colon
    have hcolon : isColon c = true := by rw [isColon, hc]; simp [ht]
    rcases qs with - | ⟨v, rs⟩
    · rfl
    · rw [List.nil_append, delimit_cons]
      dsimp only
      rw [if_pos rfl, Option.bind_some, upToQuote_join h.tail.head]
      rcases rs with - | ⟨w, rs⟩ <;> simp [valuePiece, hcolon]
  · have hcolon : isColon c = false := by rw [isColon, hc]; simp [ht]
    have he : e ≠ 34 := by
      rintro rfl
      have hmem : (34 : UInt8) ∈ skipSpaces t := by rw [ht]; exact List.mem_cons_self ..
      have hmemt : (34 : UInt8) ∈ skipSpaces c := by
        rw [hc]
        exact List.mem_cons_of_mem _ ((List.dropWhile_sublist _).mem hmem)
      exact h.head ((List.dropWhile_sublist _).mem hmemt)
    rcases qs with - | ⟨v, - | ⟨w, rs⟩⟩ <;> simp [valuePiece, hcolon, he]

/-- **The value of a key is found among the pieces of a text.** -/
theorem valueOf_delimit {front : List UInt8} (hfront : 34 ∉ front)
    (hps : Clean 34 ps) (h : json = front ++ delimit 34 ps) (key : CString) :
    valueOf json key = (afterPieces (cut 34 key.bytes) ps).bind valuePiece := by
  have hpat : quoted key = delimit 34 (cut 34 key.bytes) ++ [34] := by
    rw [delimit_cut, quoted, List.cons_append]
  have hskip : after (quoted key) (front ++ delimit 34 ps) = after (quoted key) (delimit 34 ps) :=
    after_append hfront ⟨key.bytes ++ [34], rfl⟩
  rw [valueOf, h, hskip, hpat, after_delimit (clean_cut _) (cut_ne_nil _) hps]
  rcases hp : afterPieces (cut 34 key.bytes) ps with - | rest
  · rfl
  · rw [Option.map_some, Option.bind_some, Option.bind_some,
      valueBehind_join (clean_of_afterPieces hps hp)]

/-! ### What is found in an object -/

/-- What stands as a value behind the first place where a key stands between quotes. -/
def JsonObject.firstReading (o : JsonObject) (key : CString) : Option (List UInt8) :=
  (afterPieces (cut 34 key.bytes) (membersPieces o.members)).bind valuePiece

/-- **What the function finds in a JSON object**: what stands behind the first place where the key
stands between quotes. -/
theorem licenseJsonGetString_text {json : CObject} (h : json.bytes = o.text)
    (key : CString) (out : List UInt8) :
    licenseJsonGetString json key out =
      some (if out.length < 2 ∨ key.len = 0 then (-1, out)
        else answer out (o.firstReading key)) := by
  obtain ⟨front, hfront, htext⟩ := exists_text_eq o
  rw [licenseJsonGetString_eq,
    valueOf_delimit hfront (clean_membersPieces _) (h.trans htext) key, JsonObject.firstReading]

/-- What is expected: the value of the key, if it fits, and nothing otherwise. -/
structure Extracts (json : CObject) (o : JsonObject) (key : CString) (out : List UInt8) :
    Prop where
  /-- The value of the key, with a terminator. -/
  found : ∀ m ∈ o.members, m.key.bytes = key.bytes → m.value.bytes.length < out.length →
    ∃ out' : List UInt8,
      licenseJsonGetString json key out = some ((m.value.bytes.length : ℤ), out') ∧
      out'.length = out.length ∧
      out'.take (m.value.bytes.length + 1) = m.value.bytes ++ [0]
  notFound : (∀ m ∈ o.members, m.key.bytes = key.bytes → out.length ≤ m.value.bytes.length) →
    ∃ out', licenseJsonGetString json key out = some (-1, out')

/-- The first place where a key stands between quotes is the right one. -/
structure FirstPlaceRight (o : JsonObject) (key : CString) (size : ℕ) : Prop where
  /-- If there is a value that fits, then the key is not empty, there is room for two bytes, and
  what stands behind the first place is a colon and that value. -/
  found : ∀ m ∈ o.members, m.key.bytes = key.bytes → m.value.bytes.length < size →
    key.len ≠ 0 ∧ 2 ≤ size ∧ o.firstReading key = some m.value.bytes
  /-- If there is none, then what stands behind the first place is not a colon and a piece that
  fits. -/
  notFound : (∀ m ∈ o.members, m.key.bytes = key.bytes → size ≤ m.value.bytes.length) →
    key.len ≠ 0 → 2 ≤ size → ∀ v, o.firstReading key = some v → size ≤ v.length

theorem answer_of_lt (h : v.length < out.length) :
    answer out (some v) = ((v.length : ℤ), v ++ 0 :: out.drop (v.length + 1)) := if_pos h

theorem answer_of_le {r : Option (List UInt8)}
    (h : ∀ v, r = some v → out.length ≤ v.length) : answer out r = (-1, out) := by
  rcases r with - | v
  · rfl
  · exact if_neg (not_lt.mpr (h v rfl))

/-- An object, a key and a buffer for which the function does what is expected. -/
theorem extracts_iff_firstPlaceRight {json : CObject} (h : json.bytes = o.text)
    (key : CString) (out : List UInt8) :
    Extracts json o key out ↔ FirstPlaceRight o key out.length := by
  have hget := licenseJsonGetString_text h key out
  constructor
  · rintro ⟨hfound, hnot⟩
    refine ⟨fun m hm hk hlt => ?_, fun hnone hkey hout v hv => ?_⟩
    · obtain ⟨out', hres, -, htake⟩ := hfound m hm hk hlt
      rw [hget, Option.some.injEq] at hres
      by_cases hguard : out.length < 2 ∨ key.len = 0
      · rw [if_pos hguard, Prod.mk.injEq] at hres
        omega
      rw [if_neg hguard] at hres
      rw [not_or, not_lt] at hguard
      refine ⟨hguard.2, hguard.1, ?_⟩
      rcases hr : o.firstReading key with - | v
      · rw [hr, answer, Prod.mk.injEq] at hres
        omega
      rw [hr] at hres
      by_cases hv : v.length < out.length
      · rw [answer_of_lt hv, Prod.mk.injEq] at hres
        obtain ⟨hlen, rfl⟩ := hres
        rw [show m.value.bytes.length = v.length by omega, List.take_append,
          List.take_of_length_le (by omega), Nat.add_sub_cancel_left, List.take_succ_cons,
          List.take_zero] at htake
        rw [List.append_cancel_right htake]
      · rw [answer_of_le (by rintro w ⟨⟩; omega), Prod.mk.injEq] at hres
        omega
    · obtain ⟨out', hres⟩ := hnot hnone
      rw [hget, if_neg (by omega), hv, Option.some.injEq] at hres
      by_contra hlt
      rw [answer_of_lt (not_le.mp hlt), Prod.mk.injEq] at hres
      omega
  · rintro ⟨hfound, hnot⟩
    refine ⟨fun m hm hk hlt => ?_, fun hnone => ⟨out, ?_⟩⟩
    · obtain ⟨hkey, hout, hr⟩ := hfound m hm hk hlt
      refine ⟨m.value.bytes ++ 0 :: out.drop (m.value.bytes.length + 1), ?_, ?_, ?_⟩
      · rw [hget, if_neg (by omega), hr, answer_of_lt hlt]
      · simp only [List.length_append, List.length_cons, List.length_drop]
        omega
      · rw [List.take_append, List.take_of_length_le (by omega), Nat.add_sub_cancel_left,
          List.take_succ_cons, List.take_zero]
    · rw [hget]
      split_ifs with hguard
      · rfl
      · rw [not_or, not_lt] at hguard
        rw [answer_of_le fun v hv => hnot hnone hguard.2 hguard.1 v hv]

/-- **The function stays in its two objects, and finds what is expected if and only if the first
place where the key stands between quotes is the right one.** -/
theorem extracts_iff (json : CObject) (key : CString) (out : List UInt8) :
    (licenseJsonGetString json key out).isSome ∧
      ∀ o : JsonObject, json.bytes = o.text →
        (Extracts json o key out ↔ FirstPlaceRight o key out.length) :=
  ⟨isSome_licenseJsonGetString json key out, fun _ h => extracts_iff_firstPlaceRight h key out⟩

/-- A string of one letter. -/
def letter (c : UInt8) (h : 34 ∉ [c] ∧ 92 ∉ [c] ∧ 0 ∉ [c] := by decide) : Plain :=
  ⟨[c], h.1, h.2.1, h.2.2⟩

def abbc : JsonObject :=
  ⟨[⟨letter 97, letter 98, 0, 0, 0, 0⟩, ⟨letter 98, letter 99, 0, 0, 0, 0⟩], by decide⟩

/-- The text of the object, in memory. -/
def abbcText : CObject := ⟨abbc.text, by decide⟩

theorem extracts_abbc :
    abbcText.bytes = abbc.text ∧
      (Extracts abbcText abbc ⟨[97], by decide⟩ [1, 1, 1] ↔
        FirstPlaceRight abbc ⟨[97], by decide⟩ 3) :=
  ⟨rfl, (extracts_iff abbcText ⟨[97], by decide⟩ [1, 1, 1]).2 abbc rfl⟩

/-- The value of `b` is not found: the value of `a` is taken for the key. -/
theorem not_extracts_abbc : ¬ ∀ (json : CObject) (o : JsonObject) (key : CString)
    (out : List UInt8), json.bytes = o.text → Extracts json o key out := by
  intro hall
  have hright := (extracts_iff_firstPlaceRight (rfl : abbcText.bytes = abbc.text)
    ⟨[98], by decide⟩ [1, 1, 1]).mp (hall _ _ _ _ rfl)
  have hfound := hright.found ⟨letter 98, letter 99, 0, 0, 0, 0⟩ (by simp [abbc]) rfl (by decide)
  exact absurd hfound.2.2 (by decide)

theorem afterPieces_cons (k p q : List UInt8) (ps : List (List UInt8)) :
    afterPieces [k] (p :: q :: ps) =
      if k = p then some (q :: ps) else afterPieces [k] (q :: ps) := by
  rw [afterPieces]
  by_cases h : k = p
  · rw [if_pos ⟨by simp [h], by simp⟩, if_pos h]
    rfl
  · rw [if_neg fun hpre => h (by simpa using hpre.1), if_neg h]

end Tuya

end Gd32
