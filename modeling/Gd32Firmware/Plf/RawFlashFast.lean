import Gd32Firmware.Plf.RawFlash

/-!
# The fast write under failures

`raw_flash_write_fast` issues up to three calls: the head and the tail of the buffer through
`raw_flash_write`, the words between them through `fmc_continuous_program`. The return code of
the tail replaces the one of the middle, so a middle that fails is forgotten when there is a tail
and the tail succeeds (`MiddleLost`). `rawFlashWriteFast_iff` says that this is all that
keeps the fast write from doing what the plain one does, whatever the calls return.
-/

namespace Gd32

open NorFlash List

variable (rom : Rom)

/-! ### What the fast write is for -/

/-- No call fails. -/
def Rom.always : Rom := ⟨fun _ _ => 0⟩

/-- Among the calls `ps`, issued after `log`, there is one that fails. -/
def Rom.FailsIn (log ps : List Prim) : Prop :=
  ∃ before p after, ps = before ++ p :: after ∧ rom.rc (log ++ before) p ≠ 0

/-- **A fast write agrees with a plain one**: where it returns `0` it has left what a plain write
that succeeds leaves, it programs nothing outside its range, and when one of its calls fails it
does not return `0`. -/
structure FastAgrees (offset : ℕ) (data : List UInt8) (d : Dev) : Prop where
  same : (rawFlashWriteFast rom offset data d).1 = 0 →
    (rawFlashWrite Rom.always offset data d).1 = 0 ∧
      (rawFlashWriteFast rom offset data d).2.flash =
        (rawFlashWrite Rom.always offset data d).2.flash
  inside : Issues offset (offset + data.length) d (rawFlashWriteFast rom offset data d).2
  failed : ∀ ps, (rawFlashWriteFast rom offset data d).2.log = d.log ++ ps →
    rom.FailsIn d.log ps → (rawFlashWriteFast rom offset data d).1 ≠ 0

/-! ### The three calls -/

/-- The bytes in front of the first word boundary. -/
def headOf (offset : ℕ) (data : List UInt8) : List UInt8 := data.take (fastHead offset)

/-- The whole words. -/
def middleOf (offset : ℕ) (data : List UInt8) : List UInt8 :=
  (data.drop (fastHead offset)).take
    (data.length - fastHead offset - fastTail offset data.length)

/-- The bytes behind the last word boundary. -/
def tailOf (offset : ℕ) (data : List UInt8) : List UInt8 :=
  data.drop (data.length - fastTail offset data.length)

/-- The call for the head, if there is a head. -/
def headCalls (offset : ℕ) (data : List UInt8) : List Prim :=
  if fastHead offset ≠ 0 then [.program offset (headOf offset data)] else []

/-- The call for the middle. -/
def middleCall (offset : ℕ) (data : List UInt8) : Prim :=
  .program (offset + fastHead offset) (middleOf offset data)

/-- The call for the tail, if there is a tail. -/
def tailCalls (offset : ℕ) (data : List UInt8) : List Prim :=
  if fastTail offset data.length ≠ 0 then
    [.program (offset + data.length - fastTail offset data.length) (tailOf offset data)]
  else []

/-- **The middle is lost**: the write is made in parts, the head succeeds, the middle fails, and
there is a tail that succeeds. -/
def MiddleLost (offset : ℕ) (data : List UInt8) (log : List Prim) : Prop :=
  rawFlashRangeOk offset data.length = true ∧ 4 < data.length ∧
    ¬ rom.FailsIn log (headCalls offset data) ∧
    rom.rc (log ++ headCalls offset data) (middleCall offset data) ≠ 0 ∧
    fastTail offset data.length ≠ 0 ∧
    ¬ rom.FailsIn (log ++ headCalls offset data ++ [middleCall offset data])
      (tailCalls offset data)

/-! ### One part of the write -/

variable {rom}

variable {log ps : List Prim} {d : Dev}

theorem Rom.failsIn_nil : ¬ rom.FailsIn log [] := by
  rintro ⟨before, p, after, h, -⟩
  simp at h

theorem Rom.failsIn_cons {p : Prim} :
    rom.FailsIn log (p :: ps) ↔ rom.rc log p ≠ 0 ∨ rom.FailsIn (log ++ [p]) ps := by
  constructor
  · rintro ⟨before, q, after, h, hrc⟩
    cases before with
    | nil =>
      obtain ⟨rfl, rfl⟩ := List.cons.inj h
      exact .inl (by simpa using hrc)
    | cons b before =>
      obtain ⟨rfl, rfl⟩ := List.cons.inj h
      exact .inr ⟨before, q, after, rfl, by simpa using hrc⟩
  · rintro (h | ⟨before, q, after, rfl, hrc⟩)
    · exact ⟨[], p, ps, rfl, by simpa using h⟩
    · exact ⟨p :: before, q, after, rfl, by simpa using hrc⟩

theorem Rom.failsIn_append {qs : List Prim} :
    rom.FailsIn log (ps ++ qs) ↔ rom.FailsIn log ps ∨ rom.FailsIn (log ++ ps) qs := by
  induction ps generalizing log with
  | nil =>
    rw [nil_append, append_nil]
    exact (or_iff_right Rom.failsIn_nil).symm
  | cons p ps ih =>
    rw [cons_append, Rom.failsIn_cons, Rom.failsIn_cons, ih,
      append_cons log p ps, or_assoc]

theorem Rom.failsIn_singleton {p : Prim} :
    rom.FailsIn log [p] ↔ rom.rc log p ≠ 0 := by
  rw [Rom.failsIn_cons]
  exact or_iff_left Rom.failsIn_nil

/-- **What one part does**: it issues its calls, returns `0` when none fails, and has then
programmed them. -/
structure Part (rom : Rom) (ps : List Prim) (d : Dev) (w : ℤ × Dev) : Prop where
  log : w.2.log = d.log ++ ps
  ret : w.1 = 0 ↔ ¬ rom.FailsIn d.log ps
  flash : w.1 = 0 → w.2.flash = applyAll d.flash ps

theorem Part.none (rom : Rom) (d : Dev) : Part rom [] d (0, d) where
  log := (append_nil _).symm
  ret := iff_of_true rfl Rom.failsIn_nil
  flash := fun _ => rfl

theorem part_issue (rom : Rom) (p : Prim) (d : Dev) : Part rom [p] d (rom.issue p d) where
  log := rfl
  ret := by
    rw [Rom.failsIn_singleton, not_not]
    rfl
  flash := fun h => by
    rw [Rom.issue] at h ⊢
    rw [if_pos h]
    rfl

theorem part_rawFlashWrite (rom : Rom) {offset : ℕ} {data : List UInt8}
    (h : rawFlashRangeOk offset data.length = true) (d : Dev) :
    Part rom [.program offset data] d (rawFlashWrite rom offset data d) := by
  have hissue := part_issue rom (.program offset data) d
  rw [rawFlashWrite, if_pos h]
  dsimp only
  by_cases hrc : (rom.issue (.program offset data) d).1 = 0
  · rw [if_pos hrc]
    exact ⟨hissue.log, iff_of_true rfl (hissue.ret.mp hrc), fun _ => hissue.flash hrc⟩
  · rw [if_neg hrc]
    have hm1 : (-1 : ℤ) ≠ 0 := by decide
    exact ⟨hissue.log, iff_of_false hm1 fun hn => hrc (hissue.ret.mpr hn), fun h0 => absurd h0 hm1⟩

section InRange

variable {offset : ℕ} {data : List UInt8}

/-- A part of a buffer that is in range is in range. -/
theorem rangeOk_part {a n : ℕ} (hok : rawFlashRangeOk offset data.length = true)
    (hlo : offset ≤ a) (hn : 0 < n) (hhi : a + n ≤ offset + data.length) :
    rawFlashRangeOk a n = true := by
  have hlen : data.length < 2 ^ 31 := by
    simp only [rawFlashRangeOk, Bool.and_eq_true, decide_eq_true_eq] at hok
    exact hok.1.2.2
  obtain ⟨-, hend⟩ := (rawFlashRangeOk_iff hlen).mp hok
  exact (rawFlashRangeOk_iff (by omega)).mpr ⟨hn, by omega⟩

theorem part_head (rom : Rom) (hok : rawFlashRangeOk offset data.length = true)
    (h4 : 4 < data.length) (d : Dev) :
    Part rom (headCalls offset data) d (fastWriteHead rom offset data d) := by
  have hht := fastHead_add_fastTail_le offset h4
  rw [headCalls, fastWriteHead]
  split
  next hr =>
    have hlen : (headOf offset data).length = fastHead offset := by
      rw [headOf, length_take]
      omega
    exact part_rawFlashWrite rom (rangeOk_part hok le_rfl (by omega) (by omega)) d
  next hr => exact Part.none rom d

theorem part_middle (rom : Rom) (d : Dev) :
    Part rom [middleCall offset data] d (fastWriteMiddle rom offset data d) := by
  have hlen : (middleOf offset data).length =
      data.length - fastHead offset - fastTail offset data.length := by
    rw [middleOf, length_take, length_drop]
    omega
  have hwords : (middleOf offset data).take ((middleOf offset data).length / 4 * 4) =
      middleOf offset data := by
    rw [hlen, four_dvd_middle _ offset, ← hlen, take_length]
  have hmiddle : fastWriteMiddle rom offset data d = rom.issue (middleCall offset data) d := by
    rw [middleCall, ← hwords]
    rfl
  rw [hmiddle]
  exact part_issue rom _ d

/-- The tail, when there is one, whatever the middle returned. -/
theorem part_tail (rom : Rom) (hok : rawFlashRangeOk offset data.length = true)
    (h4 : 4 < data.length) (hrr : fastTail offset data.length ≠ 0) (ret : ℤ) (d : Dev) :
    Part rom (tailCalls offset data) d (fastWriteTail rom offset data ret d) := by
  have hht := fastHead_add_fastTail_le offset h4
  have hlen : (tailOf offset data).length = fastTail offset data.length := by
    rw [tailOf, length_drop]
    omega
  rw [tailCalls, fastWriteTail, if_pos hrr, if_pos hrr]
  exact part_rawFlashWrite rom (rangeOk_part hok (by omega) (by omega) (by omega)) d

/-! ### The whole write -/

/-- The three parts leave what one write of the buffer leaves. -/
theorem applyAll_parts (h4 : 4 < data.length) (f : Flash) :
    applyAll (applyAll (applyAll f (headCalls offset data)) [middleCall offset data])
      (tailCalls offset data) = program f offset data := by
  have hhead : applyAll f (headCalls offset data) = program f offset (headOf offset data) := by
    rw [headCalls]
    split
    next => rfl
    next hr => rw [headOf, not_not.mp hr, take_zero, program_nil, applyAll_nil]
  have htail : ∀ g : Flash, applyAll g (tailCalls offset data) =
      program g (offset + data.length - fastTail offset data.length) (tailOf offset data) := by
    intro g
    rw [tailCalls]
    split
    next => rfl
    next hrr =>
      rw [tailOf, not_not.mp hrr, Nat.sub_zero, Nat.sub_zero, drop_length,
        program_nil, applyAll_nil]
  rw [htail, hhead]
  exact program_parts f offset h4

/-- A plain write that succeeds programs the buffer. -/
theorem rawFlashWrite_always (hok : rawFlashRangeOk offset data.length = true) (d : Dev) :
    (rawFlashWrite Rom.always offset data d).1 = 0 ∧
      (rawFlashWrite Rom.always offset data d).2.flash = program d.flash offset data := by
  have hpart := part_rawFlashWrite Rom.always hok d
  have hret : (rawFlashWrite Rom.always offset data d).1 = 0 :=
    hpart.ret.mpr fun ⟨_, _, _, _, hrc⟩ => hrc rfl
  exact ⟨hret, hpart.flash hret⟩

/-- A write that returns `0` exactly when none of its calls fails, and has then programmed the
buffer, agrees with the plain one. -/
theorem fastAgrees_of_part
    (hok : rawFlashRangeOk offset data.length = true)
    (hpart : Part rom ps d (rawFlashWriteFast rom offset data d))
    (hps : applyAll d.flash ps = program d.flash offset data) : FastAgrees rom offset data d where
  same := fun h0 => by
    obtain ⟨hret, hflash⟩ := rawFlashWrite_always hok d
    exact ⟨hret, by rw [hpart.flash h0, hps, hflash]⟩
  inside := issues_rawFlashWriteFast rom offset data d
  failed := fun qs hqs hfails h0 => by
    have hsame : qs = ps := append_cancel_left (hqs.symm.trans hpart.log)
    exact hpart.ret.mp h0 (hsame ▸ hfails)

/-- A write that does not return `0` agrees with the plain one. -/
theorem fastAgrees_of_ne_zero (h : (rawFlashWriteFast rom offset data d).1 ≠ 0) :
    FastAgrees rom offset data d :=
  ⟨fun h0 => absurd h0 h, issues_rawFlashWriteFast rom offset data d, fun _ _ _ => h⟩

/-- Parts that follow each other are one. -/
theorem Part.append {qs : List Prim} {w w' : ℤ × Dev} (h : Part rom ps d w)
    (h0 : w.1 = 0) (h' : Part rom qs w.2 w') : Part rom (ps ++ qs) d w' where
  log := by rw [h'.log, h.log, append_assoc]
  ret := by
    rw [h'.ret, h.log, Rom.failsIn_append, or_iff_right (h.ret.mp h0)]
  flash := fun hw => by rw [h'.flash hw, h.flash h0, applyAll_append]

end InRange

/-- **The fast write agrees with the plain one if and only if no middle is lost**: it is not the
case that the middle fails between a head and a tail that succeed. -/
theorem rawFlashWriteFast_iff (rom : Rom) (offset : ℕ) (data : List UInt8) (d : Dev) :
    FastAgrees rom offset data d ↔ ¬ MiddleLost rom offset data d.log := by
  by_cases hok : rawFlashRangeOk offset data.length = true
  swap
  · -- out of range: refused
    refine iff_of_true (fastAgrees_of_ne_zero ?_) fun h => hok h.1
    rw [rawFlashWriteFast, if_neg hok]
    exact (by decide : (-1 : ℤ) ≠ 0)
  by_cases h4 : data.length ≤ 4
  · -- short: one plain write
    have hplain : rawFlashWriteFast rom offset data d = rawFlashWrite rom offset data d := by
      rw [rawFlashWriteFast, if_pos hok, if_pos h4]
    refine iff_of_true ?_ fun h => absurd h.2.1 (by omega)
    exact fastAgrees_of_part hok (hplain ▸ part_rawFlashWrite rom hok d) rfl
  have hlong : 4 < data.length := not_le.mp h4
  have hhead := part_head rom hok hlong d
  by_cases hh : (fastWriteHead rom offset data d).1 = 0
  swap
  · -- the head fails and is returned
    refine iff_of_true (fastAgrees_of_ne_zero ?_) fun h => hh (hhead.ret.mpr h.2.2.1)
    rw [rawFlashWriteFast, if_pos hok, if_neg h4]
    dsimp only
    rw [if_pos hh]
    exact hh
  obtain ⟨e, he⟩ : ∃ e, (fastWriteHead rom offset data d).2 = e := ⟨_, rfl⟩
  obtain ⟨m, hm⟩ : ∃ m, fastWriteMiddle rom offset data e = m := ⟨_, rfl⟩
  have hfast : rawFlashWriteFast rom offset data d = fastWriteTail rom offset data m.1 m.2 := by
    rw [rawFlashWriteFast, if_pos hok, if_neg h4]
    dsimp only
    rw [if_neg (not_not_intro hh), he, hm]
  have hmiddle : Part rom [middleCall offset data] e m := hm ▸ part_middle rom e
  have hlog : e.log = d.log ++ headCalls offset data := by rw [← he, hhead.log]
  have hupto : Part rom (headCalls offset data ++ [middleCall offset data]) d m :=
    hhead.append hh (he ▸ hmiddle)
  have hwhole : applyAll d.flash
      (headCalls offset data ++ [middleCall offset data] ++ tailCalls offset data) =
      program d.flash offset data := by
    rw [applyAll_append, applyAll_append, applyAll_parts hlong]
  by_cases hrr : fastTail offset data.length = 0
  · -- no tail: the middle is returned
    refine iff_of_true ?_ fun h => h.2.2.2.2.1 hrr
    have hret : fastWriteTail rom offset data m.1 m.2 = m := if_neg (not_not_intro hrr)
    have hnone : tailCalls offset data = [] := if_neg (not_not_intro hrr)
    rw [hnone, append_nil] at hwhole
    exact fastAgrees_of_part hok (hfast ▸ hret.symm ▸ hupto) hwhole
  have htail := part_tail rom hok hlong hrr m.1 m.2
  rw [← hfast] at htail
  by_cases hmid : m.1 = 0
  · -- all three parts count
    refine iff_of_true (fastAgrees_of_part hok (hupto.append hmid htail) hwhole) ?_
    rintro ⟨-, -, -, hrc, -⟩
    exact hmiddle.ret.mp hmid (Rom.failsIn_singleton.mpr (hlog ▸ hrc))
  have hrc : rom.rc (d.log ++ headCalls offset data) (middleCall offset data) ≠ 0 := by
    rw [← hlog, ← Rom.failsIn_singleton]
    exact not_not.mp fun hn => hmid (hmiddle.ret.mpr hn)
  have hmlog : m.2.log = d.log ++ headCalls offset data ++ [middleCall offset data] := by
    rw [hmiddle.log, hlog]
  constructor
  · -- a middle that is lost is a call that fails behind the `0`
    rintro hagrees ⟨-, -, -, -, -, hok'⟩
    rw [← hmlog] at hok'
    refine hagrees.failed (headCalls offset data ++ [middleCall offset data] ++
      tailCalls offset data) ?_ ?_ (htail.ret.mpr hok')
    · rw [htail.log, hmlog, append_assoc, append_assoc, append_assoc]
    · rw [Rom.failsIn_append, Rom.failsIn_append, Rom.failsIn_singleton]
      exact .inl (.inr hrc)
  · intro hlost
    refine fastAgrees_of_ne_zero fun h0 => hlost ⟨hok, hlong, hhead.ret.mp hh, hrc, hrr, ?_⟩
    rw [← hmlog]
    exact htail.ret.mp h0

/-- The flash controller does not get ready for the words of a write. -/
def middleFails : Rom := ⟨fun log _ => if log.length = 1 then 3 else 0⟩

/-- Ten bytes from `3` on: the words from `4` to `11` are not programmed, the byte behind them
is, and `0` is returned. -/
theorem rawFlashWriteFast_middle_lost :
    (rawFlashWriteFast middleFails 3 [1, 2, 3, 4, 5, 6, 7, 8, 9, 10] ⟨fun _ => blank, []⟩).1 = 0 ∧
      (List.range 14).map (rawFlashWriteFast middleFails 3 [1, 2, 3, 4, 5, 6, 7, 8, 9, 10]
        ⟨fun _ => blank, []⟩).2.flash =
        [0xFF, 0xFF, 0xFF, 1, 0xFF, 0xFF, 0xFF, 0xFF, 0xFF, 0xFF, 0xFF, 0xFF, 10, 0xFF] ∧
      ¬ FastAgrees middleFails 3 [1, 2, 3, 4, 5, 6, 7, 8, 9, 10] ⟨fun _ => blank, []⟩ := by
  have hret : (rawFlashWriteFast middleFails 3 [1, 2, 3, 4, 5, 6, 7, 8, 9, 10]
      ⟨fun _ => blank, []⟩).1 = 0 := by decide
  refine ⟨hret, by decide, fun h => ?_⟩
  have hflash := (h.same hret).2
  exact absurd (congrFun hflash 4) (by decide)

end Gd32
