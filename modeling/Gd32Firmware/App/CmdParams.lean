import Gd32Firmware.Util.StrSearch

/-!
# The parameters of a command

The command line (`cmd_shell.c`) and the AT commands (`atcmd.c`) each have a `get_next_param` that
cuts the text in place: behind a parameter goes a zero, and the spaces behind that are skipped. A
parameter in quotes ends at the closing quote. On the command line what follows it is a space and
is skipped; in an AT command it is a comma, and gives an empty parameter.

What the loops make of a text is told by `tokens`, which works on the text alone
(`paramLoop_eq`). `params_right_iff` says for which lists of parameters it is that
list, and for which texts the pointers stay inside of `argv`.
-/

namespace Gd32.App

open List

variable {t z : List UInt8}

/-! ### The functions -/

def maxArgc : ℕ := 16

def atMaxArgc : ℕ := 15

/-- The string at a pointer into a buffer. -/
def strAt (buf : List UInt8) (p : ℕ) : List UInt8 := fieldString (buf.drop p)

/-- `strchr`, of a character that is not zero. -/
def strchr (buf : List UInt8) (p : ℕ) (c : UInt8) : Option ℕ :=
  if c ∈ strAt buf p then some (p + ((strAt buf p).takeWhile (· ≠ c)).length) else none

/-- `while (*next == ' ') next++`. -/
def skipSpacesAt (buf : List UInt8) (next : ℕ) : ℕ :=
  next + ((buf.drop next).takeWhile (· = 32)).length

/-- What `get_next_param` leaves and returns. -/
structure Cut where
  buf : List UInt8
  params : Option ℕ
  param : Option ℕ

/-- What the two `get_next_param` do, with the quotes and the separator they look for. -/
def cutParam (quotes : List UInt8) (sep : UInt8) (buf : List UInt8) : Option ℕ → Cut
  | none => ⟨buf, none, none⟩
  | some p =>
    let quoted := buf.getD p 0 ∈ quotes
    let sep := if quoted then buf.getD p 0 else sep
    let ptr := if quoted then p + 1 else p
    match strchr buf ptr sep with
    | none => ⟨buf, none, some ptr⟩
    | some n =>
      let buf := buf.set n 0
      let next := skipSpacesAt buf (n + 1)
      ⟨buf, if buf.getD next 0 = 0 then none else some next, some ptr⟩

/-- `get_next_param` of `cmd_shell.c`: quotes are `"` and `'`, parameters stand between spaces. -/
def Cli.getNextParam : List UInt8 → Option ℕ → Cut := cutParam [34, 39] 32

/-- `get_next_param` of `atcmd.c`: the quote is `'`, parameters stand between commas. -/
def At.getNextParam : List UInt8 → Option ℕ → Cut := cutParam [39] 44

/-- `while (param && (argc < max)) { argv[argc++] = param; param = get_next_param(&buf); }`, with
`n` the difference of the two: the buffer and the pointers stored, in order. -/
def paramLoop (getNextParam : List UInt8 → Option ℕ → Cut) : ℕ → Cut → List UInt8 × List ℕ
  | 0, c => (c.buf, [])
  | n + 1, c =>
    match c.param with
    | none => (c.buf, [])
    | some p =>
      let r := paramLoop getNextParam n (getNextParam c.buf c.params)
      (r.1, p :: r.2)

/-- `parse_cmd`: the buffer, and the pointers stored in `argv[0]`, `argv[1]`, … of its argument. -/
def parseCmd (buf : List UInt8) : Option ℕ → List UInt8 × List ℕ
  | none => (buf, [])
  | some p => paramLoop Cli.getNextParam maxArgc (Cli.getNextParam buf (some p))

/-- A command that has been parsed. -/
structure Args where
  buf : List UInt8
  /-- The pointers stored in `argv[0]`, `argv[1]`, …, without a look at its size. -/
  argv : List ℕ

/-- The strings that `argv` points at. -/
def Args.strings (a : Args) : List (List UInt8) := a.argv.map (strAt a.buf)

/-- `cmd_param_separate`: the buffer and the pointer to the parameters. -/
def Cli.cmdParamSeparate (buf : List UInt8) : List UInt8 × Option ℕ :=
  match strchr buf 0 32 with
  | some n => (buf.set n 0, some (skipSpacesAt (buf.set n 0) (n + 1)))
  | none => (buf.set (buf.length - 1) 0, none)

/-- `cmn_cmd_exec`, up to the call of the handler: what the handler gets, if there is one; `found`
says which commands have a handler, with `parse_cmd` as the function that parses. -/
def cmnCmdExec (found : List UInt8 → Bool) (buf : List UInt8) : Option Args :=
  let (buf, param) := Cli.cmdParamSeparate buf
  let command := strAt buf 0
  if command = [104, 101, 108, 112] then none
  else if found command then
    let r := parseCmd buf param
    some ⟨r.1, 0 :: r.2⟩
  else none

def atcmdParse (buf : List UInt8) : Args :=
  let text := fieldString buf
  let i := (text.takeWhile fun c => c ≠ 61 ∧ c ≠ 13 ∧ c ≠ 10).length
  if text[i]? = some 61 then
    let r := paramLoop At.getNextParam (atMaxArgc - 1) (At.getNextParam (buf.set i 0) (some (i + 1)))
    ⟨r.1, 0 :: r.2⟩
  else ⟨buf.set i 0, [0]⟩

/-! ### Cutting one parameter -/

/-- What a parameter is opened by: the character it ends at, and what follows the quote. -/
def opened (quotes : List UInt8) (sep : UInt8) : List UInt8 → UInt8 × List UInt8
  | [] => (sep, [])
  | c :: s => if c ∈ quotes then (c, s) else (sep, c :: s)

/-- The first `n` parameters of a text, as the loops find them. -/
def tokens (quotes : List UInt8) (sep : UInt8) : ℕ → List UInt8 → List (List UInt8)
  | 0, _ => []
  | n + 1, s =>
    let o := opened quotes sep s
    o.2.takeWhile (· ≠ o.1) ::
      match skipSpaces (o.2.dropWhile (· ≠ o.1)).tail with
      | [] => []
      | c :: r => tokens quotes sep n (c :: r)

theorem length_tokens_le (quotes : List UInt8) (sep : UInt8) (n : ℕ) (s : List UInt8) :
    (tokens quotes sep n s).length ≤ n := by
  induction n generalizing s with
  | zero => exact le_rfl
  | succ n ih =>
    refine Nat.succ_le_succ ?_
    split
    · exact Nat.zero_le n
    · exact ih _

/-- What is behind a parameter is part of the text. -/
theorem rest_sublist (quotes : List UInt8) (sep : UInt8) (s : List UInt8) :
    (skipSpaces ((opened quotes sep s).2.dropWhile (· ≠ (opened quotes sep s).1)).tail).Sublist
      s := by
  refine ((dropWhile_sublist _).trans (tail_sublist _)).trans
    ((dropWhile_sublist _).trans ?_)
  cases s with
  | nil => exact List.Sublist.refl _
  | cons c s =>
    rw [opened]
    split_ifs
    · exact sublist_cons_self c s
    · exact List.Sublist.refl _

theorem strAt_append (pre : List UInt8) {s : List UInt8} (hs : 0 ∉ s) (z : List UInt8) :
    strAt (pre ++ (s ++ 0 :: z)) pre.length = s := by
  rw [strAt, drop_left]
  exact fieldString_append ⟨s, hs⟩ z

theorem strchr_append (pre : List UInt8) {s : List UInt8} (hs : 0 ∉ s) (z : List UInt8) (c : UInt8) :
    strchr (pre ++ (s ++ 0 :: z)) pre.length c =
      if c ∈ s then some (pre.length + (s.takeWhile (· ≠ c)).length) else none := by
  rw [strchr, strAt_append pre hs]

theorem skipSpacesAt_append (pre s : List UInt8) (z : List UInt8) :
    skipSpacesAt (pre ++ (s ++ 0 :: z)) pre.length =
      pre.length + (s.takeWhile (· = 32)).length := by
  rw [skipSpacesAt, drop_left]
  congr 2
  by_cases hall : s.takeWhile (· = 32) = s
  · rw [hall, takeWhile_append_of_pos fun c hc => ?_]
    · simp
    · rw [← hall] at hc
      exact mem_takeWhile_imp (p := fun c : UInt8 => decide (c = 32)) hc
  · rw [takeWhile_append, if_neg]
    exact fun h => hall (List.IsPrefix.eq_of_length (List.takeWhile_prefix _) h)

section Cutting

variable {quotes : List UInt8} {sep : UInt8} {pre s post : List UInt8}

/-- The quote in front of a parameter, if there is one. -/
theorem opened_spec (sep : UInt8) (h0 : 0 ∉ quotes) {c : UInt8}
    (hc : (pre ++ (s ++ 0 :: post)).getD pre.length 0 = c) :
    ∃ lead, s = lead ++ (opened quotes sep s).2 ∧
      (if c ∈ quotes then c else sep) = (opened quotes sep s).1 ∧
      (if c ∈ quotes then pre.length + 1 else pre.length) = (pre ++ lead).length := by
  rw [getD_eq_getElem?_getD, List.getElem?_append_right le_rfl, Nat.sub_self] at hc
  cases s with
  | nil =>
    obtain rfl : 0 = c := hc
    exact ⟨[], rfl, if_neg h0, by rw [if_neg h0, append_nil]⟩
  | cons d s =>
    obtain rfl : d = c := hc
    rw [opened]
    split_ifs
    · exact ⟨[d], rfl, rfl, by simp⟩
    · exact ⟨[], rfl, rfl, by simp⟩

/-- **One call of `get_next_param`** on the text `s`: the parameter ends with a zero, and what is
behind it is the rest of the text. -/
theorem cutParam_eq (sep : UInt8) (pre post : List UInt8) (hs : 0 ∉ s) (h0 : 0 ∉ quotes) :
    ∃ mid ptr, ptr < (pre ++ mid).length ∧
      (∀ z, strAt (pre ++ mid ++ z) ptr =
        (opened quotes sep s).2.takeWhile (· ≠ (opened quotes sep s).1)) ∧
      match skipSpaces ((opened quotes sep s).2.dropWhile (· ≠ (opened quotes sep s).1)).tail with
      | [] => ∃ z, cutParam quotes sep (pre ++ (s ++ 0 :: post)) (some pre.length) =
          ⟨pre ++ mid ++ z, none, some ptr⟩
      | c :: r => cutParam quotes sep (pre ++ (s ++ 0 :: post)) (some pre.length) =
          ⟨pre ++ mid ++ (c :: r ++ 0 :: post), some (pre ++ mid).length, some ptr⟩ := by
  obtain ⟨lead, hlead, hquote, hptr⟩ := opened_spec (s := s) sep h0
    (rfl : (pre ++ (s ++ 0 :: post)).getD pre.length 0 = _)
  rw [cutParam, hquote, hptr]
  generalize (opened quotes sep s).1 = q at *
  generalize (opened quotes sep s).2 = t at *
  subst hlead
  have ht : 0 ∉ t := fun h => hs (mem_append_right _ h)
  have hbuf : pre ++ (lead ++ t ++ 0 :: post) = pre ++ lead ++ (t ++ 0 :: post) := by simp
  rw [hbuf, strchr_append _ ht]
  by_cases hq : q ∈ t
  · -- a zero is put in the place of `q`
    rw [if_pos hq]
    obtain ⟨r, hr⟩ : ∃ r, t.dropWhile (· ≠ q) = q :: r := by
      rcases hd : t.dropWhile (· ≠ q) with _ | ⟨d, r⟩
      · rw [dropWhile_eq_nil_iff] at hd
        simpa using hd q hq
      · have hhead := head_dropWhile_not (fun c : UInt8 => decide (c ≠ q)) (l := t)
          (by rw [hd]; simp)
        simp only [hd, head_cons] at hhead
        obtain rfl : d = q := by simpa using hhead
        exact ⟨r, rfl⟩
    have hsplit : t = t.takeWhile (· ≠ q) ++ q :: r := by
      rw [← hr, takeWhile_append_dropWhile]
    generalize t.takeWhile (· ≠ q) = u at *
    have hu : 0 ∉ u := fun h => ht (by rw [hsplit]; exact mem_append_left _ h)
    have hr0 : 0 ∉ r := fun h => ht (by rw [hsplit]; simp [h])
    have hspaces : r = r.takeWhile (· = 32) ++ skipSpaces r := by
      rw [skipSpaces, takeWhile_append_dropWhile]
    set mid := lead ++ u ++ [0] ++ r.takeWhile (· = 32) with hmid
    have hset : (pre ++ lead ++ (t ++ 0 :: post)).set ((pre ++ lead).length + u.length) 0 =
        pre ++ mid ++ (skipSpaces r ++ 0 :: post) := by
      rw [← length_append, hsplit]
      conv_lhs => rw [hspaces]
      simp [hmid]
    have hnext : skipSpacesAt (pre ++ mid ++ (skipSpaces r ++ 0 :: post))
        ((pre ++ lead).length + u.length + 1) = (pre ++ mid).length := by
      have h := skipSpacesAt_append (pre ++ lead ++ u ++ [0]) r post
      have hbuf' : pre ++ lead ++ u ++ [0] ++ (r ++ 0 :: post) =
          pre ++ mid ++ (skipSpaces r ++ 0 :: post) := by
        conv_lhs => rw [hspaces]
        simp [hmid]
      rw [hbuf'] at h
      have hlen : (pre ++ lead ++ u ++ [0]).length = (pre ++ lead).length + u.length + 1 := by
        simp
        omega
      rw [← hlen, h]
      simp [hmid]
      omega
    rw [hr, tail_cons]
    simp only [hset, hnext]
    have hstr : ∀ z, strAt (pre ++ mid ++ z) (pre ++ lead).length = u := by
      intro z
      simpa [hmid] using strAt_append (pre ++ lead) hu (r.takeWhile (· = 32) ++ z)
    have hlt : (pre ++ lead).length < (pre ++ mid).length := by
      simp only [hmid, length_append, length_cons]
      omega
    have hend : ∀ (d : UInt8) (z : List UInt8),
        (pre ++ mid ++ d :: z).getD (pre ++ mid).length 0 = d := fun d z => by
      rw [getD_eq_getElem?_getD, List.getElem?_append_right le_rfl, Nat.sub_self]
      rfl
    refine ⟨mid, (pre ++ lead).length, hlt, hstr, ?_⟩
    rcases hskip : skipSpaces r with _ | ⟨d, r'⟩
    · refine ⟨0 :: post, ?_⟩
      rw [nil_append, hend, if_pos rfl]
    · have hd : d ≠ 0 := by
        rintro rfl
        refine hr0 ((dropWhile_sublist (· = 32)).subset ?_)
        rw [← skipSpaces, hskip]
        exact mem_cons_self
      simp only [cons_append, hend, if_neg hd]
  · -- the parameter runs to the end of the text
    rw [if_neg hq]
    have hall : ∀ c ∈ t, decide (c ≠ q) = true := fun c hc => by
      simpa using ne_of_mem_of_not_mem hc hq
    have htake : t.takeWhile (· ≠ q) = t := takeWhile_eq_self_iff.mpr hall
    have hdrop : t.dropWhile (· ≠ q) = [] := dropWhile_eq_nil_iff.mpr hall
    rw [htake, hdrop]
    refine ⟨lead ++ t ++ [0], (pre ++ lead).length, by simp, fun z => ?_, post, by simp⟩
    simpa using strAt_append (pre ++ lead) ht z

/-! ### Cutting all parameters -/

theorem paramLoop_none (next : List UInt8 → Option ℕ → Cut) (n : ℕ) (buf : List UInt8)
    (params : Option ℕ) : paramLoop next n ⟨buf, params, none⟩ = (buf, []) := by
  cases n <;> rfl

/-- **The loop** stores the parameters of the text, up to the limit, and leaves what is in front of
the text as it is. -/
theorem paramLoop_eq (sep : UInt8) (pre post : List UInt8) (hs : 0 ∉ s) (h0 : 0 ∉ quotes)
    (n : ℕ) :
    ∃ z ptrs, paramLoop (cutParam quotes sep) n
        (cutParam quotes sep (pre ++ (s ++ 0 :: post)) (some pre.length)) = (pre ++ z, ptrs) ∧
      ptrs.map (strAt (pre ++ z)) = tokens quotes sep n s ∧ ∀ p ∈ ptrs, p < (pre ++ z).length := by
  induction n generalizing pre s with
  | zero =>
    obtain ⟨mid, ptr, -, -, hcut⟩ := cutParam_eq sep pre post hs h0
    rw [paramLoop]
    split at hcut
    · obtain ⟨z, hcut⟩ := hcut
      exact ⟨mid ++ z, [], by rw [hcut, append_assoc], rfl, by simp⟩
    · exact ⟨_, [], by rw [hcut, append_assoc], rfl, by simp⟩
  | succ n ih =>
    obtain ⟨mid, ptr, hlt, hstr, hcut⟩ := cutParam_eq sep pre post hs h0
    rw [tokens]
    split at hcut
    · next hrest =>
      -- the last parameter
      obtain ⟨z, hcut⟩ := hcut
      rw [hcut]
      refine ⟨mid ++ z, [ptr], ?_, ?_, ?_⟩
      · simp only [paramLoop, cutParam, paramLoop_none, append_assoc]
      · simpa using hstr z
      · simp at hlt ⊢
        omega
    · next c r hrest =>
      have hr : 0 ∉ c :: r := by
        rw [← hrest]
        exact fun h => hs ((rest_sublist quotes sep s).subset h)
      obtain ⟨z, ptrs, hloop, hmap, hin⟩ := ih (pre ++ mid) hr
      rw [hcut]
      refine ⟨mid ++ z, ptr :: ptrs, ?_, ?_, ?_⟩
      · rw [paramLoop]
        simp only [hloop]
        rw [append_assoc]
      · rw [append_assoc] at hmap
        simp only [map_cons, hmap]
        rw [← append_assoc, hstr z]
      · rw [← append_assoc]
        rintro p hp
        rcases mem_cons.mp hp with rfl | hp
        · rw [length_append]
          omega
        · exact hin p hp

theorem length_cutParam (quotes : List UInt8) (sep : UInt8) (buf : List UInt8)
    (params : Option ℕ) : (cutParam quotes sep buf params).buf.length = buf.length := by
  rw [cutParam.eq_def]
  split
  · rfl
  · simp only
    split
    · rfl
    · exact length_set

theorem length_paramLoop (quotes : List UInt8) (sep : UInt8) (n : ℕ) (c : Cut) :
    (paramLoop (cutParam quotes sep) n c).1.length = c.buf.length := by
  induction n generalizing c with
  | zero => rfl
  | succ n ih =>
    rw [paramLoop]
    split
    · rfl
    · exact (ih _).trans (length_cutParam ..)

end Cutting

/-! ### The texts of parameters -/

/-- A parameter, as it is written. -/
inductive Param where
  | plain (t : List UInt8)
  | quoted (t : List UInt8)
  deriving DecidableEq

/-- What is to be delivered. -/
def Param.content : Param → List UInt8
  | .plain t => t
  | .quoted t => t

/-- What is written. -/
def Param.text : Param → List UInt8
  | .plain t => t
  | .quoted t => 39 :: (t ++ [39])

/-- A parameter that can be written so: not empty, without the separator and not starting with a
quote; or without the single quote. -/
def Param.Ok (quotes : List UInt8) (sep : UInt8) : Param → Prop
  | .plain t => t ≠ [] ∧ sep ∉ t ∧ 0 ∉ t ∧ ∀ c ∈ t.head?, c ∉ quotes
  | .quoted t => 39 ∉ t ∧ 0 ∉ t

/-- Parameters behind another one, each behind a separator and some spaces. -/
def tailText (sep : UInt8) : List (ℕ × Param) → List UInt8
  | [] => []
  | (k, p) :: ps => sep :: (List.replicate k 32 ++ (p.text ++ tailText sep ps))

/-- Parameters, with separators in between. -/
def joinText (sep : UInt8) : List (ℕ × Param) → List UInt8
  | [] => []
  | (_, p) :: ps => p.text ++ tailText sep ps

/-- The parameters as they are to be delivered. -/
def contents (ps : List (ℕ × Param)) : List (List UInt8) := ps.map fun p => p.2.content

section Texts

variable {quotes : List UInt8} {sep : UInt8}

theorem tailText_eq_nil_or (sep : UInt8) (ps : List (ℕ × Param)) :
    tailText sep ps = [] ∨ ∃ z, tailText sep ps = sep :: z := by
  cases ps with
  | nil => exact .inl rfl
  | cons p ps => exact .inr ⟨_, rfl⟩

/-- The characters up to a separator. -/
theorem takeWhile_stop {q : UInt8} (ht : q ∉ t)
    (hz : z = [] ∨ ∃ y, z = q :: y) :
    (t ++ z).takeWhile (· ≠ q) = t ∧ (t ++ z).dropWhile (· ≠ q) = z := by
  have hall : ∀ c ∈ t, decide (c ≠ q) = true := fun c hc => by
    simpa using ne_of_mem_of_not_mem hc ht
  rw [takeWhile_append_of_pos hall, dropWhile_append_of_pos hall]
  rcases hz with rfl | ⟨y, rfl⟩ <;> simp

/-- What a parameter without quotes gives. -/
theorem tokens_plain (hne : t ≠ []) (hsep : sep ∉ t)
    (hq : ∀ c ∈ t.head?, c ∉ quotes) (n : ℕ) (ps : List (ℕ × Param)) :
    tokens quotes sep (n + 1) (t ++ tailText sep ps) =
      t :: match skipSpaces (tailText sep ps).tail with
        | [] => []
        | c :: r => tokens quotes sep n (c :: r) := by
  obtain ⟨htake, hdrop⟩ := takeWhile_stop hsep (tailText_eq_nil_or sep ps)
  have hopened : opened quotes sep (t ++ tailText sep ps) = (sep, t ++ tailText sep ps) := by
    obtain ⟨c, t, rfl⟩ := exists_cons_of_ne_nil hne
    exact if_neg (hq c rfl)
  rw [tokens, hopened]
  simp only [htake, hdrop]

/-- What a parameter in quotes gives. -/
theorem tokens_quoted (ht : 39 ∉ t) (hq : 39 ∈ quotes) (n : ℕ) (z : List UInt8) :
    tokens quotes sep (n + 1) ((Param.quoted t).text ++ z) =
      t :: match skipSpaces z with
        | [] => []
        | c :: r => tokens quotes sep n (c :: r) := by
  obtain ⟨htake, hdrop⟩ := takeWhile_stop (z := 39 :: z) ht (.inr ⟨z, rfl⟩)
  have hopened : opened quotes sep ((Param.quoted t).text ++ z) = (39, t ++ 39 :: z) := by
    simp [Param.text, opened, hq]
  rw [tokens, hopened]
  simp only [htake, hdrop, tail_cons]

theorem skipSpaces_replicate (k : ℕ) (z : List UInt8) :
    skipSpaces (List.replicate k 32 ++ z) = skipSpaces z := by
  rw [skipSpaces, dropWhile_append_of_pos fun c hc => by
    simpa using eq_of_mem_replicate hc]
  rfl

/-- A text that starts with no space is not shortened. -/
theorem skipSpaces_of_head (h : ∀ c ∈ z.head?, c ≠ 32) : skipSpaces z = z := by
  cases z with
  | nil => rfl
  | cons c z => exact dropWhile_cons_of_neg (by simpa using h c rfl)

theorem Param.Ok.text_ne_nil {p : Param} (h : p.Ok quotes sep) : p.text ≠ [] := by
  cases p with
  | plain t => exact h.1
  | quoted t => exact cons_ne_nil _ _

theorem more_eq (n : ℕ) (z : List UInt8) :
    (match z with
      | [] => []
      | c :: r => tokens quotes sep n (c :: r)) = if z = [] then [] else tokens quotes sep n z := by
  cases z <;> rfl

theorem zero_notMem_tailText (hsep : sep ≠ 0) {ps : List (ℕ × Param)}
    (h : ∀ p ∈ ps, p.2.Ok quotes sep) : 0 ∉ tailText sep ps := by
  induction ps with
  | nil => exact not_mem_nil
  | cons p ps ih =>
    obtain ⟨k, p⟩ := p
    have hp := h (k, p) mem_cons_self
    have htext : 0 ∉ p.text := by
      cases p with
      | plain t => exact hp.2.2.1
      | quoted t => simpa [Param.text] using hp.2
    have htail := ih fun q hq => h q (mem_cons_of_mem _ hq)
    rw [tailText, mem_cons, mem_append, mem_append, mem_replicate]
    rintro (h0 | h0 | h0 | h0)
    · exact hsep h0.symm
    · exact absurd h0.2 (by decide)
    · exact htext h0
    · exact htail h0

theorem zero_notMem_joinText (hsep : sep ≠ 0) {ps : List (ℕ × Param)}
    (h : ∀ p ∈ ps, p.2.Ok quotes sep) : 0 ∉ joinText sep ps := by
  cases ps with
  | nil => exact not_mem_nil
  | cons p ps =>
    have hall := zero_notMem_tailText hsep h
    exact fun h0 => hall (mem_cons_of_mem _ (mem_append_right _ h0))

end Texts

/-! ### The command line -/

/-- On the command line a parameter does not start with a space. -/
theorem Param.Ok.head_ne_space {p : Param} (h : p.Ok [34, 39] 32) (z : List UInt8) :
    skipSpaces (p.text ++ z) = p.text ++ z := by
  refine skipSpaces_of_head fun c hc => ?_
  cases p with
  | plain t =>
    obtain ⟨d, t, rfl⟩ := exists_cons_of_ne_nil h.1
    obtain rfl : d = c := Option.some.inj hc
    exact ne_of_mem_of_not_mem mem_cons_self h.2.1
  | quoted t =>
    obtain rfl : 39 = c := Option.some.inj hc
    decide

/-- **On the command line the parameters are found as they are**, up to the limit. -/
theorem tokens_cli {ps : List (ℕ × Param)} (hne : ps ≠ []) (h : ∀ p ∈ ps, p.2.Ok [34, 39] 32)
    (n : ℕ) : tokens [34, 39] 32 n (joinText 32 ps) = (contents ps).take n := by
  induction ps generalizing n with
  | nil => exact absurd rfl hne
  | cons p ps ih =>
    obtain ⟨k, p⟩ := p
    have hp := h (k, p) mem_cons_self
    have hps := fun q hq => h q (mem_cons_of_mem _ hq)
    rcases n with _ | n
    · rfl
    -- what is behind the parameter is the text of the others
    have hrest : (match skipSpaces (tailText 32 ps).tail with
        | [] => []
        | c :: r => tokens [34, 39] 32 n (c :: r)) = (contents ps).take n := by
      rcases ps with _ | ⟨⟨l, q⟩, qs⟩
      · exact (take_nil).symm
      · have hq := hps (l, q) mem_cons_self
        rw [tailText, tail_cons, skipSpaces_replicate, hq.head_ne_space, more_eq,
          if_neg (append_ne_nil_of_left_ne_nil hq.text_ne_nil _)]
        exact ih (cons_ne_nil _ _) hps n
    rw [contents, map_cons, take_succ_cons, ← contents, ← hrest]
    cases p with
    | plain t => exact tokens_plain hp.1 hp.2.1 hp.2.2.2 n ps
    | quoted t =>
      refine (tokens_quoted hp.1 (by decide) n _).trans ?_
      -- the separator is skipped with the spaces
      congr 1
      rcases ps with _ | ⟨⟨l, q⟩, qs⟩ <;> rfl

/-! ### AT commands -/

/-- A parameter without quotes that starts with a space. -/
def Param.StartsWithSpace : Param → Prop
  | .plain t => t.head? = some 32
  | .quoted _ => False

/-- A list of parameters that an AT command delivers: it has a parameter, none but the first starts
with a space, and only the last one is in quotes. If the list is as long as `argv`, empty
parameters in quotes may stand behind a parameter in quotes. -/
def Delivered (full : Prop) : List (ℕ × Param) → Prop
  | [] => False
  | [_] => True
  | (_, .plain _) :: q :: qs => ¬q.2.StartsWithSpace ∧ Delivered full (q :: qs)
  | (_, .quoted _) :: q :: qs => full ∧ ∀ p ∈ q :: qs, p.2 = .quoted []

section At

variable {ps qs : List (ℕ × Param)} {k : ℕ} {q : Param}

theorem Param.Ok.content_eq_nil (h : q.Ok [39] 44) : q.content = [] ↔ q = .quoted [] := by
  cases q with
  | plain t => simpa [Param.content] using h.1
  | quoted t => simp [Param.content]

theorem contents_eq_replicate (h : ∀ p ∈ ps, p.2.Ok [39] 44) (j : ℕ) :
    List.replicate j [] = contents ps ↔ j = ps.length ∧ ∀ p ∈ ps, p.2 = .quoted [] := by
  rw [eq_comm, eq_replicate_iff, contents, length_map, eq_comm, forall_mem_map]
  exact and_congr_right fun _ => forall₂_congr fun p hp => (h p hp).content_eq_nil

theorem skipSpaces_tailText (ps : List (ℕ × Param)) :
    skipSpaces (tailText 44 ps) = tailText 44 ps := by
  refine skipSpaces_of_head fun c hc => ?_
  rcases tailText_eq_nil_or 44 ps with h | ⟨z, h⟩ <;> rw [h] at hc
  · cases hc
  · obtain rfl : 44 = c := Option.some.inj hc
    decide

theorem Param.Ok.skipSpaces_text (h : q.Ok [39] 44) (hq : ¬q.StartsWithSpace) (z : List UInt8) :
    skipSpaces (q.text ++ z) = q.text ++ z := by
  refine skipSpaces_of_head fun c hc => ?_
  cases q with
  | plain t =>
    obtain ⟨d, t, rfl⟩ := exists_cons_of_ne_nil h.1
    obtain rfl : d = c := Option.some.inj hc
    rintro rfl
    exact hq rfl
  | quoted t =>
    obtain rfl : 39 = c := Option.some.inj hc
    decide

/-- A comma where a parameter is expected gives an empty one. -/
theorem tokens_comma (m : ℕ) (z : List UInt8) :
    tokens [39] 44 (m + 1) (44 :: z) =
      [] :: if skipSpaces z = [] then [] else tokens [39] 44 m (skipSpaces z) := by
  rw [tokens, ← more_eq]
  rfl

/-- An empty parameter in quotes behind a comma gives two. -/
theorem tokens_comma_empty (m k : ℕ) (qs : List (ℕ × Param)) :
    tokens [39] 44 (m + 1) (tailText 44 ((k, .quoted []) :: qs)) =
      [] :: match m with
        | 0 => []
        | m + 1 => [] :: if tailText 44 qs = [] then [] else tokens [39] 44 m (tailText 44 qs) := by
  have hskip : skipSpaces ((Param.quoted []).text ++ tailText 44 qs) =
      (Param.quoted []).text ++ tailText 44 qs := rfl
  rw [tailText, tokens_comma, skipSpaces_replicate, hskip,
    if_neg (show (Param.quoted []).text ++ tailText 44 qs ≠ [] from cons_ne_nil _ _)]
  cases m with
  | zero => rfl
  | succ m => rw [tokens_quoted not_mem_nil (by decide), skipSpaces_tailText, more_eq]

/-- Some empty parameters too many, in front of others: they are not noticed only if all are empty
and the list is cut off. -/
theorem surplus_iff {j m : ℕ} (hj : 0 < j) (h : ∀ p ∈ ps, p.2.Ok [39] 44)
    (hlen : ps.length ≤ j + m) :
    List.replicate j [] ++ (if tailText 44 ps = [] then [] else tokens [39] 44 m (tailText 44 ps)) =
      contents ps ↔ j + m = ps.length ∧ ∀ p ∈ ps, p.2 = .quoted [] := by
  induction ps generalizing j m with
  | nil =>
    constructor
    · intro heq
      have := congrArg List.length heq
      simp [tailText, contents] at this
      omega
    · rintro ⟨hzero, -⟩
      rw [length_nil] at hzero
      omega
  | cons p ps ih =>
    obtain ⟨k, p⟩ := p
    have hp := h (k, p) mem_cons_self
    have hps := fun q hq => h q (mem_cons_of_mem _ hq)
    obtain ⟨i, rfl⟩ : ∃ i, j = i + 1 := ⟨j - 1, by omega⟩
    rw [if_neg (by simp [tailText]), replicate_succ, cons_append, contents, map_cons,
      ← contents, List.cons.injEq, eq_comm, hp.content_eq_nil, forall_mem_cons]
    rw [length_cons] at hlen ⊢
    by_cases hempty : p = .quoted []
    · subst hempty
      -- the loop goes on by two parameters, if it is not at its limit
      have hmore : List.replicate i [] ++ tokens [39] 44 m (tailText 44 ((k, .quoted []) :: ps)) =
          contents ps ↔ i + m = ps.length ∧ ∀ q ∈ ps, q.2 = .quoted [] := by
        rcases m with _ | _ | m
        · rw [tokens, append_nil]
          exact contents_eq_replicate hps i
        · rw [tokens_comma_empty, ← replicate_succ']
          exact contents_eq_replicate hps (i + 1)
        · rw [tokens_comma_empty]
          have h2 := ih (j := i + 2) (m := m) (by omega) hps (by omega)
          rw [← replicate_append_replicate, append_assoc] at h2
          rw [show i + (m + 1 + 1) = i + 2 + m by omega]
          exact h2
      simp only [true_and, hmore]
      exact and_congr_left fun _ => by omega
    · simp [hempty]

/-- A parameter that starts with a space is not delivered. -/
theorem tokens_space (ht : t.head? = some 32) (n : ℕ)
    (l : List (List UInt8)) :
    (if skipSpaces (t ++ tailText 44 ps) = [] then []
      else tokens [39] 44 n (skipSpaces (t ++ tailText 44 ps))) ≠ t :: l := by
  split_ifs with hnil
  · simp
  rcases n with _ | n
  · exact (cons_ne_nil _ _).symm
  intro heq
  have htoken := (List.cons.inj heq).1
  obtain ⟨c, r, hr⟩ := exists_cons_of_ne_nil hnil
  have hc : c ≠ 32 := by
    have hhead := List.head?_dropWhile_not (fun c : UInt8 => decide (c = 32)) (t ++ tailText 44 ps)
    rw [← skipSpaces, hr] at hhead
    simpa using hhead
  rw [hr, opened] at htoken
  by_cases hquote : c ∈ [39]
  · -- the quote is in the parameter, and not in what is taken for it
    obtain rfl : c = 39 := mem_singleton.mp hquote
    have hmem : 39 ∈ t := by
      rw [skipSpaces, dropWhile_append] at hr
      split_ifs at hr with hall
      · rcases tailText_eq_nil_or 44 ps with h | ⟨z, h⟩ <;> rw [h] at hr <;> cases hr
      · rcases hd : t.dropWhile (· = 32) with _ | ⟨d, t'⟩
        · exact absurd (by rw [hd]; rfl) hall
        · rw [hd, cons_append] at hr
          obtain rfl : d = 39 := (List.cons.inj hr).1
          exact (dropWhile_sublist _).subset (hd ▸ mem_cons_self)
    rw [← htoken] at hmem
    simpa using mem_takeWhile_imp hmem
  · rw [if_neg hquote] at htoken
    by_cases hcomma : c = 44
    · subst hcomma
      rw [← htoken] at ht
      cases ht
    · rw [takeWhile_cons_of_pos (by simpa using hcomma)] at htoken
      rw [← htoken] at ht
      exact hc (Option.some.inj ht)

/-- **What an AT command delivers.** -/
theorem tokens_at {full : Prop} {n : ℕ} (h : ∀ p ∈ ps, p.2.Ok [39] 44) (hn : 0 < n)
    (hlen : ps.length ≤ n) (hfull : full ↔ n = ps.length) :
    tokens [39] 44 n (joinText 44 ps) = contents ps ↔ Delivered full ps := by
  induction ps generalizing n with
  | nil =>
    obtain ⟨n, rfl⟩ : ∃ i, n = i + 1 := ⟨n - 1, by omega⟩
    exact iff_of_false (cons_ne_nil _ _) id
  | cons p ps ih =>
    obtain ⟨k, p⟩ := p
    obtain ⟨n, rfl⟩ : ∃ i, n = i + 1 := ⟨n - 1, by omega⟩
    have hp := h (k, p) mem_cons_self
    have hps := fun q hq => h q (mem_cons_of_mem _ hq)
    rw [length_cons, Nat.add_right_cancel_iff] at hfull
    rw [length_cons] at hlen
    rw [contents, map_cons, ← contents]
    cases p with
    | plain t =>
      rw [joinText, Param.text, tokens_plain hp.1 hp.2.1 hp.2.2.2 n ps, Param.content,
        List.cons.injEq, more_eq, eq_self, true_and]
      rcases ps with _ | ⟨⟨l, q⟩, qs⟩
      · exact iff_of_true rfl trivial
      have hq := hps (l, q) mem_cons_self
      rw [Delivered, tailText, tail_cons, skipSpaces_replicate]
      by_cases hspace : q.StartsWithSpace
      · -- the spaces of the next parameter are skipped
        cases q with
        | plain u => exact iff_of_false (tokens_space hspace n _) fun h => h.1 hspace
        | quoted u => exact hspace.elim
      · rw [hq.skipSpaces_text hspace,
          if_neg (append_ne_nil_of_left_ne_nil hq.text_ne_nil _), and_iff_right hspace]
        rw [length_cons] at hlen
        exact ih hps (by omega) (by rw [length_cons]; omega) hfull
    | quoted t =>
      rw [joinText, tokens_quoted hp.1 (by decide) n, Param.content, List.cons.injEq, more_eq,
        skipSpaces_tailText, eq_self, true_and]
      rcases ps with _ | ⟨⟨l, q⟩, qs⟩
      · exact iff_of_true rfl trivial
      -- the comma gives an empty parameter
      have hq := hps (l, q) mem_cons_self
      rw [length_cons] at hlen hfull
      obtain ⟨m, rfl⟩ : ∃ m, n = m + 1 := ⟨n - 1, by omega⟩
      rw [if_neg (by simp [tailText]), Delivered, forall_mem_cons, hfull]
      by_cases hempty : q = .quoted []
      · subst hempty
        rw [tokens_comma_empty, contents, map_cons, ← contents, Param.content, List.cons.injEq]
        simp only [true_and]
        rcases m with _ | m
        · obtain rfl : qs = [] := length_eq_zero_iff.mp (by omega)
          simp [contents]
        · have h1 := surplus_iff (j := 1) (m := m) (by decide)
            (fun p hp => hps p (mem_cons_of_mem _ hp)) (by omega)
          rw [replicate_one, singleton_append] at h1
          rw [h1]
          exact and_congr_left fun _ => by omega
      · refine iff_of_false (fun heq => hempty ?_) fun h => hempty h.2.1
        exact hq.content_eq_nil.mp (List.cons.inj heq).1.symm

end At

/-! ### The commands -/

/-- The name of a command of the command line. -/
def cliName (line : List UInt8) : List UInt8 := line.takeWhile (· ≠ 32)

/-- The first parameters on a command line, at most `MAX_ARGC`. -/
def cliParams (line : List UInt8) : List (List UInt8) :=
  match line.dropWhile (· ≠ 32) with
  | [] => []
  | _ :: r => tokens [34, 39] 32 maxArgc (skipSpaces r)

/-- The name of an AT command. -/
def atName (line : List UInt8) : List UInt8 := line.takeWhile fun c => c ≠ 61 ∧ c ≠ 13 ∧ c ≠ 10

/-- The first parameters of an AT command, at most `AT_MAX_ARGC - 1`. -/
def atParams (line : List UInt8) : List (List UInt8) :=
  match line.dropWhile (fun c => c ≠ 61 ∧ c ≠ 13 ∧ c ≠ 10) with
  | 61 :: r => tokens [39] 44 (atMaxArgc - 1) r
  | _ => []

/-- Nothing is stored behind `argv`, which has `max` elements, and what is stored points into the
buffer. -/
def Args.Inside (max : ℕ) (buf : List UInt8) (a : Args) : Prop :=
  a.argv.length ≤ max ∧ ∀ p ∈ a.argv, p < buf.length

section Commands

variable {found : List UInt8 → Bool} {line post : List UInt8}

/-- A line up to a character that is in it. -/
theorem split_line (line : List UInt8) (q : UInt8) :
    q ∉ line ∧ line.dropWhile (· ≠ q) = [] ∨
      ∃ r, line.dropWhile (· ≠ q) = q :: r ∧ line = line.takeWhile (· ≠ q) ++ q :: r := by
  rcases hd : line.dropWhile (· ≠ q) with _ | ⟨c, r⟩
  · rw [dropWhile_eq_nil_iff] at hd
    exact .inl ⟨fun hq => by simpa using hd q hq, rfl⟩
  · have hhead := List.head?_dropWhile_not (fun c : UInt8 => decide (c ≠ q)) line
    rw [hd] at hhead
    obtain rfl : c = q := by simpa using hhead
    exact .inr ⟨r, rfl, by rw [← hd, takeWhile_append_dropWhile]⟩

theorem cmdParamSeparate_eq (h : 0 ∉ line) :
    Cli.cmdParamSeparate (line ++ [0]) = match line.dropWhile (· ≠ 32) with
      | [] => (line ++ [0], none)
      | _ :: r => (cliName line ++ 0 :: r ++ [0],
          some (cliName line ++ 0 :: r.takeWhile (· = 32)).length) := by
  have hchr : strchr (line ++ [0]) 0 32 = if 32 ∈ line then some (cliName line).length else none := by
    simpa [cliName] using strchr_append [] h [] 32
  rw [Cli.cmdParamSeparate, hchr]
  rcases split_line line 32 with ⟨hno, hnil⟩ | ⟨r, hr, hline⟩
  · rw [if_neg hno, hnil]
    simp
  · have hmem : 32 ∈ line := by
      rw [hline]
      simp
    have hset : ∀ x, line = x ++ 32 :: r → (line ++ [0]).set x.length 0 = x ++ 0 :: r ++ [0] := by
      intro x hx
      rw [hx]
      simp
    have hskip := skipSpacesAt_append (cliName line ++ [0]) r []
    rw [if_pos hmem, hr]
    simp only [hset (cliName line) hline]
    rw [show cliName line ++ 0 :: r ++ [0] = cliName line ++ [0] ++ (r ++ [0]) by simp,
      show (cliName line).length + 1 = (cliName line ++ [0]).length by simp, hskip]
    simp
    omega

/-- The name is cut off in either case. -/
theorem strAt_cmdParamSeparate (h : 0 ∉ line) :
    strAt (Cli.cmdParamSeparate (line ++ [0])).1 0 = cliName line := by
  have hname : 0 ∉ cliName line := fun h0 => h ((takeWhile_sublist _).subset h0)
  rw [cmdParamSeparate_eq h]
  rcases split_line line 32 with ⟨hno, hnil⟩ | ⟨r, hr, -⟩
  · have hall : cliName line = line := by
      rw [cliName, takeWhile_eq_self_iff]
      exact fun c hc => by simpa using ne_of_mem_of_not_mem hc hno
    rw [hnil, hall]
    simpa using strAt_append [] h []
  · rw [hr]
    simpa using strAt_append [] hname (r ++ [0])

/-- There is such a command if something is parsed. -/
theorem found_of_cmnCmdExec (h : 0 ∉ line) {a : Args}
    (ha : cmnCmdExec found (line ++ [0]) = some a) :
    found (cliName line) = true ∧ cliName line ≠ [104, 101, 108, 112] := by
  rw [cmnCmdExec] at ha
  simp only [strAt_cmdParamSeparate h] at ha
  split_ifs at ha with hhelp hfound
  exact ⟨hfound, hhelp⟩

/-- **What the handler of a command gets**, if there is one. -/
theorem cmnCmdExec_eq (h : 0 ∉ line) (hfound : found (cliName line) = true)
    (hhelp : cliName line ≠ [104, 101, 108, 112]) :
    ∃ a, cmnCmdExec found (line ++ [0]) = some a ∧ a.strings = cliName line :: cliParams line ∧
      ∀ p ∈ a.argv, p < (line ++ [0]).length := by
  have hname : 0 ∉ cliName line := fun h0 => h ((takeWhile_sublist _).subset h0)
  rw [cmnCmdExec, cmdParamSeparate_eq h, cliParams]
  rcases split_line line 32 with ⟨hno, hnil⟩ | ⟨r, hr, hline⟩
  · -- there are no parameters
    have hall : cliName line = line := by
      rw [cliName, takeWhile_eq_self_iff]
      exact fun c hc => by simpa using ne_of_mem_of_not_mem hc hno
    have hstr : strAt (line ++ [0]) 0 = line := by simpa using strAt_append [] h []
    rw [hall] at hfound hhelp
    rw [hnil]
    simp only [hstr, if_neg hhelp, if_pos hfound]
    exact ⟨_, rfl, by simp [Args.strings, parseCmd, hstr, hall], by simp [parseCmd]⟩
  · have hstr : ∀ z, strAt (cliName line ++ 0 :: z) 0 = cliName line := fun z => by
      simpa using strAt_append [] hname z
    have hr0 : 0 ∉ r := fun h0 => h (by rw [hline]; simp [h0])
    have hbuf : cliName line ++ 0 :: r ++ [0] =
        cliName line ++ 0 :: r.takeWhile (· = 32) ++ (skipSpaces r ++ 0 :: []) := by
      rw [skipSpaces, append_assoc, append_assoc, cons_append, cons_append,
        ← append_assoc (r.takeWhile _), takeWhile_append_dropWhile]
    obtain ⟨z, ptrs, hloop, hmap, hin⟩ := paramLoop_eq (s := skipSpaces r) 32
      (cliName line ++ 0 :: r.takeWhile (· = 32)) []
      (fun h0 => hr0 ((dropWhile_sublist _).subset h0)) (show 0 ∉ [34, 39] by decide) maxArgc
    have hlen := congrArg (List.length ∘ Prod.fst) hloop
    simp only [Function.comp_apply, length_paramLoop, length_cutParam, ← hbuf] at hlen
    have hname' : strAt (cliName line ++ 0 :: r ++ [0]) 0 = cliName line := by
      rw [append_assoc]
      exact hstr _
    have hparse : parseCmd (cliName line ++ 0 :: r ++ [0])
        (some (cliName line ++ 0 :: r.takeWhile (· = 32)).length) =
          (cliName line ++ 0 :: r.takeWhile (· = 32) ++ z, ptrs) := by
      rw [hbuf]
      exact hloop
    rw [hr]
    simp only [hname', if_neg hhelp, if_pos hfound, hparse]
    refine ⟨_, rfl, ?_, ?_⟩
    · rw [Args.strings, map_cons, hmap, append_assoc, cons_append, hstr]
    · have hsize : (cliName line ++ 0 :: r ++ [0]).length = (line ++ [0]).length := by
        have hlength : line.length = (cliName line).length + (r.length + 1) := by
          rw [← length_cons (a := 32), ← length_append]
          exact congrArg List.length hline
        simp
        omega
      rintro p hp
      rcases mem_cons.mp hp with rfl | hp
      · simp
      · rw [← hsize, hlen]
        exact hin p hp

/-- **What an AT command gets.** -/
theorem atcmdParse_eq (h : 0 ∉ line) (post : List UInt8) :
    (atcmdParse (line ++ 0 :: post)).strings = atName line :: atParams line ∧
      ∀ p ∈ (atcmdParse (line ++ 0 :: post)).argv, p < (line ++ 0 :: post).length := by
  have hname : 0 ∉ atName line := fun h0 => h ((takeWhile_sublist _).subset h0)
  have hline : fieldString (line ++ 0 :: post) = line := fieldString_append ⟨line, h⟩ post
  have hsplit : line = atName line ++ line.dropWhile (fun c => c ≠ 61 ∧ c ≠ 13 ∧ c ≠ 10) :=
    takeWhile_append_dropWhile.symm
  have hstr : ∀ z, strAt (atName line ++ 0 :: z) 0 = atName line := fun z => by
    simpa using strAt_append [] hname z
  have hdef : atcmdParse (line ++ 0 :: post) = if (line)[(atName line).length]? = some 61 then
      let r := paramLoop At.getNextParam (atMaxArgc - 1) (At.getNextParam
        ((line ++ 0 :: post).set (atName line).length 0) (some ((atName line).length + 1)))
      ⟨r.1, 0 :: r.2⟩
    else ⟨(line ++ 0 :: post).set (atName line).length 0, [0]⟩ := by
    rw [atcmdParse, hline]
    rfl
  rw [hdef, atParams]
  generalize line.dropWhile (fun c => c ≠ 61 ∧ c ≠ 13 ∧ c ≠ 10) = rest at *
  generalize atName line = name at *
  subst hsplit
  have hget : (name ++ rest)[name.length]? = rest.head? := by
    rw [List.getElem?_append_right le_rfl, Nat.sub_self, List.head?_eq_getElem?]
  have hset : ∀ d w, rest ++ 0 :: post = d :: w →
      (name ++ rest ++ 0 :: post).set name.length 0 = name ++ 0 :: w := by
    intro d w hw
    rw [append_assoc, hw]
    simp
  have hpos : 0 < (name ++ rest ++ 0 :: post).length := by
    rw [length_append, length_cons]
    omega
  rw [hget]
  split_ifs with hequ
  · -- the parameters behind the equals sign
    obtain ⟨r, rfl⟩ : ∃ r, rest = 61 :: r := by
      cases rest with
      | nil => cases hequ
      | cons c r => exact ⟨r, by rw [Option.some.inj hequ]⟩
    have hr0 : 0 ∉ r := fun h0 => h (by simp [h0])
    obtain ⟨z, ptrs, hloop, hmap, hin⟩ := paramLoop_eq 44 (name ++ [0]) post
      hr0 (show 0 ∉ [39] by decide) (atMaxArgc - 1)
    have hbuf : name ++ 0 :: (r ++ 0 :: post) = name ++ [0] ++ (r ++ 0 :: post) := by simp
    have hlen := congrArg (List.length ∘ Prod.fst) hloop
    simp only [Function.comp_apply, length_paramLoop, length_cutParam, ← hbuf] at hlen
    rw [← hset 61 (r ++ 0 :: post) rfl, length_set] at hlen
    rw [hset 61 (r ++ 0 :: post) rfl, hbuf, show name.length + 1 = (name ++ [0]).length by simp,
      At.getNextParam, hloop]
    refine ⟨?_, ?_⟩
    · rw [Args.strings, map_cons, hmap, append_assoc, singleton_append, hstr]
      rfl
    · rintro p hp
      rcases mem_cons.mp hp with rfl | hp
      · exact hpos
      · rw [hlen]
        exact hin p hp
  · -- only the name
    obtain ⟨d, w, hw⟩ : ∃ d w, rest ++ 0 :: post = d :: w := by
      cases rest with
      | nil => exact ⟨0, post, rfl⟩
      | cons c r => exact ⟨c, r ++ 0 :: post, rfl⟩
    have hnone : (match rest with
        | 61 :: r => tokens [39] 44 (atMaxArgc - 1) r
        | _ => []) = [] := by
      split
      · exact absurd rfl hequ
      · rfl
    rw [hset d w hw, hnone]
    refine ⟨by rw [Args.strings, map_singleton, hstr], fun p hp => ?_⟩
    obtain rfl : p = 0 := mem_singleton.mp hp
    exact hpos

end Commands

/-! ### The result -/

/-- The handler of a command of the command line gets just the parameters. -/
def CliDelivers (found : List UInt8 → Bool) (name : List UInt8) (ps : List (ℕ × Param)) : Prop :=
  (cmnCmdExec found (name ++ tailText 32 ps ++ [0])).map Args.strings = some (name :: contents ps)

/-- An AT command gets just the parameters; `post` is what stands in the buffer behind it. -/
def AtDelivers (name : List UInt8) (ps : List (ℕ × Param)) (post : List UInt8) : Prop :=
  (atcmdParse (name ++ 61 :: joinText 44 ps ++ 0 :: post)).strings = name :: contents ps

/-- A line on the command line does no harm. -/
def CliSafe (found : List UInt8 → Bool) (line : List UInt8) : Prop :=
  ∀ a, cmnCmdExec found (line ++ [0]) = some a → a.Inside maxArgc (line ++ [0])

/-- A line that is an AT command does no harm. -/
def AtSafe (line post : List UInt8) : Prop :=
  (atcmdParse (line ++ 0 :: post)).Inside atMaxArgc (line ++ 0 :: post)

section Result

variable {found : List UInt8 → Bool} {name line post : List UInt8} {ps : List (ℕ × Param)}

theorem cliDelivers (hname : 32 ∉ name) (h0 : 0 ∉ name) (hfound : found name = true)
    (hhelp : name ≠ [104, 101, 108, 112]) (h : ∀ p ∈ ps, p.2.Ok [34, 39] 32)
    (hfit : ps.length + 1 ≤ maxArgc) : CliDelivers found name ps := by
  obtain ⟨htake, hdrop⟩ := takeWhile_stop hname (tailText_eq_nil_or 32 ps)
  have hline : 0 ∉ name ++ tailText 32 ps := fun hmem =>
    (mem_append.mp hmem).elim h0 (zero_notMem_tailText (by decide) h)
  have hcli : cliName (name ++ tailText 32 ps) = name := htake
  rw [← hcli] at hfound hhelp
  obtain ⟨a, ha, hstrings, -⟩ := cmnCmdExec_eq hline hfound hhelp
  rw [CliDelivers, ha, Option.map_some, hstrings, hcli, cliParams, hdrop]
  rcases ps with _ | ⟨⟨k, p⟩, ps⟩
  · rfl
  · have hp := h (k, p) mem_cons_self
    have htokens := tokens_cli (cons_ne_nil _ _) h maxArgc
    rw [joinText, take_of_length_le (by rw [contents, length_map]; omega)] at htokens
    rw [tailText]
    simp only [skipSpaces_replicate, hp.head_ne_space, htokens]

theorem atDelivers_iff (hname : ∀ c ∈ name, c ≠ 61 ∧ c ≠ 13 ∧ c ≠ 10) (h0 : 0 ∉ name)
    (h : ∀ p ∈ ps, p.2.Ok [39] 44) (hfit : ps.length + 1 ≤ atMaxArgc) (post : List UInt8) :
    AtDelivers name ps post ↔ Delivered (ps.length + 1 = atMaxArgc) ps := by
  have hall : ∀ c ∈ name, decide (c ≠ 61 ∧ c ≠ 13 ∧ c ≠ 10) = true := fun c hc =>
    decide_eq_true (hname c hc)
  have htake : atName (name ++ 61 :: joinText 44 ps) = name := by
    rw [atName, takeWhile_append_of_pos hall]
    simp
  have hparams : atParams (name ++ 61 :: joinText 44 ps) =
      tokens [39] 44 (atMaxArgc - 1) (joinText 44 ps) := by
    rw [atParams, dropWhile_append_of_pos hall]
    simp
  have hline : 0 ∉ name ++ 61 :: joinText 44 ps := by
    rw [mem_append, mem_cons]
    rintro (hmem | hmem | hmem)
    · exact h0 hmem
    · exact absurd hmem (by decide)
    · exact zero_notMem_joinText (by decide) h hmem
  rw [AtDelivers, (atcmdParse_eq hline post).1, htake, hparams, List.cons.injEq, eq_self, true_and]
  exact tokens_at h (by decide) (by omega) (by omega)

theorem Args.length_argv {a : Args} {n : List UInt8} {l : List (List UInt8)}
    (h : a.strings = n :: l) : a.argv.length = l.length + 1 := by
  rw [← length_cons (a := n), ← h, Args.strings, length_map]

theorem cliSafe_iff (hline : 0 ∉ line) :
    CliSafe found line ↔ (found (cliName line) = true → cliName line ≠ [104, 101, 108, 112] →
      (cliParams line).length < maxArgc) := by
  constructor
  · intro hsafe hfound hhelp
    obtain ⟨a, ha, hstrings, -⟩ := cmnCmdExec_eq hline hfound hhelp
    have hle := (hsafe a ha).1
    rw [Args.length_argv hstrings] at hle
    exact hle
  · intro hfew a ha
    obtain ⟨hfound, hhelp⟩ := found_of_cmnCmdExec hline ha
    obtain ⟨b, hb, hstrings, hin⟩ := cmnCmdExec_eq hline hfound hhelp
    obtain rfl : b = a := Option.some.inj (hb.symm.trans ha)
    refine ⟨?_, hin⟩
    rw [Args.length_argv hstrings]
    exact hfew hfound hhelp

theorem atSafe (hline : 0 ∉ line) (post : List UInt8) : AtSafe line post := by
  obtain ⟨hstrings, hin⟩ := atcmdParse_eq hline post
  refine ⟨?_, hin⟩
  rw [Args.length_argv hstrings, atParams]
  split
  · exact Nat.succ_le_succ (length_tokens_le _ _ _ _)
  · decide

/-- **Parameters are delivered, and `argv` is not overrun.** On the command line lists that fit are
delivered, and `argv` is overrun by the lines with `MAX_ARGC` parameters or more, if there is such
a command. AT commands do not overrun it, and deliver some lists only. -/
theorem params_right_iff (hname : 32 ∉ name) (h0 : 0 ∉ name) (hfound : found name = true)
    (hhelp : name ≠ [104, 101, 108, 112]) (h : ∀ p ∈ ps, p.2.Ok [34, 39] 32)
    (hfit : ps.length + 1 ≤ maxArgc) {atCmd : List UInt8} {atPs : List (ℕ × Param)}
    (hcmd : ∀ c ∈ atCmd, c ≠ 61 ∧ c ≠ 13 ∧ c ≠ 10) (hcmd0 : 0 ∉ atCmd)
    (hat : ∀ p ∈ atPs, p.2.Ok [39] 44) (hatfit : atPs.length + 1 ≤ atMaxArgc)
    (hline : 0 ∉ line) :
    CliDelivers found name ps ∧
      (AtDelivers atCmd atPs post ↔ Delivered (atPs.length + 1 = atMaxArgc) atPs) ∧
      (CliSafe found line ↔ (found (cliName line) = true → cliName line ≠ [104, 101, 108, 112] →
        (cliParams line).length < maxArgc)) ∧
      AtSafe line post := by
  exact ⟨cliDelivers hname h0 hfound hhelp h hfit, atDelivers_iff hcmd hcmd0 hat hatfit post,
    cliSafe_iff hline, atSafe hline post⟩

/-- A command line with two parameters, an AT command with a parameter behind one in quotes, and a
line with a parameter. -/
theorem params_right_iff_quoted :
    CliDelivers (fun _ => true) [97] [(0, .plain [98]), (2, .quoted [32])] ∧
      ¬AtDelivers [65, 84] [(0, .quoted [97]), (0, .plain [98])] [] ∧
      CliSafe (fun _ => true) [97, 32, 98] ∧ AtSafe [97, 32, 98] [] := by
  obtain ⟨hcli, hat, hline, hatline⟩ := @params_right_iff (fun _ => true) [97] [97, 32, 98] []
    [(0, .plain [98]), (2, .quoted [32])] (by decide) (by decide) rfl (by decide)
    (by simp [Param.Ok]) (by decide +kernel) [65, 84] [(0, .quoted [97]), (0, .plain [98])]
    (by decide +kernel) (by decide) (by simp [Param.Ok]) (by decide +kernel) (by decide)
  refine ⟨hcli, fun h => ?_, hline.mpr fun _ _ => by decide, hatline⟩
  exact absurd (hat.mp h).1 (by decide)

/-- An AT command delivers an empty parameter behind one in quotes, and a command line with
`MAX_ARGC` parameters is stored behind `argv`. -/
theorem not_params_right :
    ¬AtDelivers [65, 84] [(0, .quoted [97]), (0, .plain [98])] [] ∧
      ¬CliSafe (fun _ => true) (97 :: (List.replicate 16 [32, 98]).flatten) := by
  constructor
  · rw [AtDelivers]
    decide +kernel
  · intro hsafe
    have hlength : (cmnCmdExec (fun _ => true) (97 :: (List.replicate 16 [32, 98]).flatten ++ [0])).map
        (fun a => a.argv.length) = some 17 := by decide +kernel
    obtain ⟨a, ha, hargv⟩ := Option.map_eq_some_iff.mp hlength
    have hle := (hsafe a ha).1
    rw [hargv] at hle
    exact absurd hle (by decide)

end Result

end Gd32.App
