import Gd32Firmware.Util.StrSearch

/-!
# The head of an HTTP response

`ota_demo.c` reads the status code, the length of the header and the length of the body off the
receive buffer with `strstr` (`httpRspCode`, `httpHdrLen`,
`httpBodyLen`); an access outside the buffer or outside one of the small arrays the
numbers are copied to is `none`. What a response says about its body is `Announces`, which
knows nothing of receives.
-/

namespace Gd32.App

open List

/-! ### The texts -/

def term : List UInt8 := [13, 10]

def ending : List UInt8 := [13, 10, 13, 10]

/-- `"HTTP/1."`. -/
def httpVersion : List UInt8 := [72, 84, 84, 80, 47, 49, 46]

def contentLength : List UInt8 :=
  [67, 111, 110, 116, 101, 110, 116, 45, 76, 101, 110, 103, 116, 104, 58]

/-! ### What the code reads -/

/-- `sizeof(re_code)` and `sizeof(bodyLenbuf)`. -/
def numBufSize : ℕ := 10

/-- A number array after the text has been copied to its start. -/
def numBuf (text : List UInt8) : List UInt8 := text ++ List.replicate (numBufSize - text.length) 0

def httpRspCode (httpbuf : List UInt8) : Option ℤ :=
  (strstr httpVersion httpbuf).bind fun found =>
    match found with
    | none => some (-1)
    | some p =>
      -- the length added is that of `"HTTP/1.1"`
      let pStart := skipSpaces (p.drop 8)
      (strstr [32] pStart).bind fun pEnd =>
        match pEnd with
        | none => atoi (numBuf [])
        | some pEnd =>
          if numBufSize < ptrDiff pEnd pStart then some (-2)
          else atoi (numBuf (pStart.take (ptrDiff pEnd pStart)))

def httpHdrLen (httpbuf : List UInt8) : Option ℕ :=
  (strstr ending httpbuf).map fun pEnd =>
    match pEnd with
    | none => 0
    | some pEnd => ptrDiff pEnd httpbuf + ending.length

/-- `http_body_len`; a text longer than the array is copied over what lies behind it. -/
def httpBodyLen (httpbuf : List UInt8) : Option ℤ :=
  (strstr contentLength httpbuf).bind fun found =>
    match found with
    | none => some 0
    | some p =>
      let pStart := skipSpaces (p.drop contentLength.length)
      (strstr term pStart).bind fun pEnd =>
        match pEnd with
        | none => some 0
        | some pEnd =>
          if numBufSize < ptrDiff pEnd pStart then none
          else atoi (numBuf (pStart.take (ptrDiff pEnd pStart)))

/-! ### What a response says -/

/-- A letter in lower case. -/
def toLower (c : UInt8) : UInt8 := if 65 ≤ c ∧ c ≤ 90 then c + 32 else c

/-- Spaces and tabs around the value of a field are not part of it. -/
def trimValue (v : List UInt8) : List UInt8 :=
  let blank := fun c : UInt8 => c = 32 || c = 9
  ((v.dropWhile blank).reverse.dropWhile blank).reverse

/-- The value of a field line, when its name is the one asked for; names are compared without
regard to case. -/
def fieldValue (name line : List UInt8) : Option (List UInt8) :=
  if (line.take name.length).map toLower = name.map toLower then
    some (trimValue (line.drop name.length))
  else none

/-- The length a field line announces. -/
def fieldLength (line : List UInt8) : Option ℕ :=
  (fieldValue contentLength line).bind fun v =>
    if v ≠ [] ∧ v.all isDigit then some (decimal v) else none

/-- A line of the head: it is not empty and holds no line end. -/
def IsLine (line : List UInt8) : Prop := line ≠ [] ∧ ¬term <:+: line

/-- The status line is one of HTTP/1 with code 200. -/
def Is200 (status : List UInt8) : Prop :=
  ∃ minor reason, isDigit minor ∧ status = httpVersion ++ [minor] ++ [32, 50, 48, 48] ++ reason ∧
    (reason = [] ∨ reason.head? = some 32)

/-- **A response is a 200 with a length and a body**: a status line, header fields of which those
that announce a length agree on `n`, an empty line, and `body`. -/
def Announces (response : List UInt8) (n : ℕ) (body : List UInt8) : Prop :=
  ∃ (status : List UInt8) (fields : List (List UInt8)),
    Is200 status ∧ IsLine status ∧ (∀ l ∈ fields, IsLine l) ∧
    (∃ l ∈ fields, fieldLength l = some n) ∧
    (∀ l ∈ fields, ∀ m, fieldLength l = some m → m = n) ∧
    response = status ++ term ++ (fields.map (· ++ term)).flatten ++ term ++ body

/-! ### Where the header ends -/

theorem zero_notMem_ending : (0 : UInt8) ∉ ending := by decide

/-- The header read off a buffer ends in what was received. -/
theorem httpHdrLen_le {f : List UInt8} {k h : ℕ}
    (hh : httpHdrLen (f ++ List.replicate k 0) = some h) : h ≤ f.length := by
  rw [httpHdrLen, Option.map_eq_some_iff] at hh
  obtain ⟨found, hfound, hh⟩ := hh
  rcases found with _ | t
  · subst hh
    exact Nat.zero_le _
  obtain ⟨⟨before, hbefore⟩, v, rfl⟩ := suffix_of_strstr hfound
  have hlen := congrArg List.length hbefore
  simp only [length_append, length_replicate] at hlen
  subst hh
  simp only [ptrDiff, length_append, length_replicate]
  by_contra hlt
  -- a zero behind the received bytes would be part of the text
  have h4 : ending.length = 4 := rfl
  have hget : (before ++ (ending ++ v))[max before.length f.length]? = some 0 := by
    rw [hbefore, List.getElem?_append_right (by omega), List.getElem?_replicate_of_lt (by omega)]
  rw [List.getElem?_append_right (by omega), List.getElem?_append_left (by omega)] at hget
  exact zero_notMem_ending (mem_of_getElem? hget)

/-- The body length read off a buffer has at most nine digits. -/
theorem natAbs_httpBodyLen_lt {buf : List UInt8} {n : ℤ} (h : httpBodyLen buf = some n) :
    n.natAbs < 10 ^ 9 := by
  rw [httpBodyLen, Option.bind_eq_some_iff] at h
  obtain ⟨found, -, h⟩ := h
  rcases found with _ | p
  · cases h
    decide
  simp only [Option.bind_eq_some_iff] at h
  obtain ⟨pEnd, -, h⟩ := h
  rcases pEnd with _ | pEnd
  · cases h
    decide
  dsimp only at h
  split at h
  · cases h
  next hsize =>
  have hlt := natAbs_atoi_lt h
  rw [numBuf, length_append, length_replicate, length_take] at hlt
  have h10 : numBufSize = 10 := rfl
  refine Nat.lt_of_lt_of_le hlt (Nat.pow_le_pow_right (by decide) ?_)
  omega

end Gd32.App
