import Gd32Firmware.Config
import Mathlib.Data.List.Perm.Basic
import Mathlib.Data.List.Infix

/-!
# Reference-counted data

`tuya_smartpointer.c`: a control block with a count, and data that is either the caller's own
block or, with `malk`, a copy that lies behind the control block in one allocation. The put
that brings the count to zero releases the control block and, when the data is a block of its
own, the data.

Which of the two it is, `tuya_smartpointer_put` reads from the field `malk`; but
`tuya_smartpointer_create` clears the control block and never sets that field. So an object
made with `malk` is released as if its data were a block of its own
(`Tuya.released_iff`).

The count is changed under a mutex, so calls of different tasks come one after the other, and
the mutex is left out, as are the bytes of the data, which no function here looks at. The
allocator is outside the repository: what `tkl_system_malloc` answers is a parameter, and what
is passed to `tkl_system_free` is recorded.
-/

namespace Gd32

open List

variable {malk : Bool} {data n : ℕ} {o : SpObject}

namespace Tuya

/-! ### The source -/

/-- `SMARTPOINTER_T`, without the mutex. -/
structure Smartpointer where
  malk : Bool
  /-- `rfc`, a `uint32_t`. -/
  rfc : ℕ
  dataLen : ℕ
  /-- `data`, an address. -/
  data : ℕ
  deriving DecidableEq

/-- `sizeof(SMARTPOINTER_T)`: five words, the mutex handle being one. -/
def sizeofSmartpointer : ℕ := 20

/-- A control block at its address, and the addresses given back to the allocator so far. -/
structure SpObject where
  addr : ℕ
  sp : Smartpointer
  /-- The arguments of `tkl_system_free`, oldest first. -/
  frees : List ℕ
  deriving DecidableEq

/-- `tuya_smartpointer_create`; an address is `0` when it is null, and `none` is a null
result. -/
def tuyaSmartpointerCreate (malloc : ℕ → Option ℕ) (data dataLen : ℕ) (malk : Bool) (cnt : ℕ) :
    Option SpObject :=
  if dataLen = 0 ∨ data = 0 then none
  else
    match malloc (if malk then u32 (sizeofSmartpointer + dataLen) else sizeofSmartpointer) with
    | none => none
    | some addr =>
      -- `memset`: the field `malk` stays as it leaves it
      let sp : Smartpointer := { malk := false, rfc := 0, dataLen := 0, data := 0 }
      let sp := if malk then { sp with data := addr + sizeofSmartpointer }
        else { sp with data := data }
      some ⟨addr, { sp with dataLen := dataLen, rfc := cnt }, []⟩

def tuyaSmartpointerGet (o : SpObject) : SpObject :=
  { o with sp := { o.sp with rfc := u32 (o.sp.rfc + 1) } }

/-- The end of `tuya_smartpointer_put`, and all of `tuya_smartpointer_del`. -/
def tuyaSmartpointerDel (o : SpObject) : SpObject :=
  { o with frees := o.frees ++ (if o.sp.malk = false then [o.sp.data] else []) ++ [o.addr] }

def tuyaSmartpointerPut (o : SpObject) : SpObject :=
  let o := { o with sp := { o.sp with rfc := u32sub o.sp.rfc 1 } }
  if o.sp.rfc = 0 then tuyaSmartpointerDel o else o

theorem tuyaSmartpointerDel_addr (o : SpObject) : (tuyaSmartpointerDel o).addr = o.addr := rfl

/-- The count after a put decides whether the object is released. -/
theorem tuyaSmartpointerPut_eq (o : SpObject) :
    tuyaSmartpointerPut o =
      if u32sub o.sp.rfc 1 = 0 then
        tuyaSmartpointerDel { o with sp := { o.sp with rfc := u32sub o.sp.rfc 1 } }
      else { o with sp := { o.sp with rfc := u32sub o.sp.rfc 1 } } := by
  rw [tuyaSmartpointerPut]

theorem tuyaSmartpointerPut_addr (o : SpObject) : (tuyaSmartpointerPut o).addr = o.addr := by
  rw [tuyaSmartpointerPut_eq]
  generalize u32sub o.sp.rfc 1 = n
  split
  · exact tuyaSmartpointerDel_addr _
  · rfl

/-! ### Runs -/

/-- A call on an object. -/
inductive SpCall where
  /-- `tuya_smartpointer_get`. -/
  | get
  /-- `tuya_smartpointer_put`. -/
  | put

/-- Making a call; one on an object that has been released is not defined. -/
def SpCall.run (c : SpCall) (o : SpObject) : Option SpObject :=
  if o.addr ∈ o.frees then none
  else
    match c with
    | .get => some (tuyaSmartpointerGet o)
    | .put => some (tuyaSmartpointerPut o)

/-- Calls one after the other. -/
def SpObject.runs (o : SpObject) : List SpCall → Option SpObject
  | [] => some o
  | c :: cs => (c.run o).bind fun o' => o'.runs cs

/-- The references held after some calls, of `n` held before them. -/
def references (n : ℕ) : List SpCall → ℕ
  | [] => n
  | .get :: cs => references (n + 1) cs
  | .put :: cs => references (n - 1) cs

/-- Every call is made by a holder: while a reference is held. So the puts never exceed the
references given out, and nothing is called behind the put of the last one. -/
def Held (n : ℕ) : List SpCall → Prop
  | [] => True
  | .get :: cs => 0 < n ∧ Held (n + 1) cs
  | .put :: cs => 0 < n ∧ Held (n - 1) cs

/-- No put leaves a positive multiple of `2 ^ 32` references, which the count cannot tell from
none. -/
def Unwrapped (n : ℕ) : List SpCall → Prop
  | [] => True
  | .get :: cs => Unwrapped (n + 1) cs
  | .put :: cs => (2 ^ 32 ∣ n - 1 → n - 1 = 0) ∧ Unwrapped (n - 1) cs

/-- The blocks of an object: the combined one, or the caller's data and the control block. -/
def spBlocks (malk : Bool) (data addr : ℕ) : List ℕ := if malk then [addr] else [data, addr]

/-- **What is released after some calls**: nothing while references are held, and with the last
one every block of the object once and nothing else. -/
def Released (malk : Bool) (data n : ℕ) (o : SpObject) (cs : List SpCall) : Prop :=
  ∃ o', o.runs cs = some o' ∧ (0 < references n cs → o'.frees = []) ∧
    (references n cs = 0 → o'.frees.Perm (spBlocks malk data o.addr))

/-! ### What the calls release -/

/-- An object as `tuya_smartpointer_create` leaves it, with `n` references. -/
structure SpLive (malk : Bool) (data n : ℕ) (o : SpObject) : Prop where
  rfc : o.sp.rfc = u32 n
  flag : o.sp.malk = false
  own : malk = false → o.sp.data = data
  kept : o.frees = []

theorem SpLive.get (h : SpLive malk data n o) :
    SpCall.get.run o = some (tuyaSmartpointerGet o) ∧
      SpLive malk data (n + 1) (tuyaSmartpointerGet o) := by
  refine ⟨by simp [SpCall.run, h.kept], ?_, h.flag, h.own, h.kept⟩
  simp only [tuyaSmartpointerGet, h.rfc, u32]
  omega

theorem SpLive.put_run (h : SpLive malk data n o) :
    SpCall.put.run o = some (tuyaSmartpointerPut o) := by
  simp [SpCall.run, h.kept]

theorem SpLive.put_rfc (h : SpLive malk data n o)
    (hn : 0 < n) : u32sub o.sp.rfc 1 = u32 (n - 1) := by
  simp only [h.rfc, u32sub, u32]
  omega

theorem SpLive.put (h : SpLive malk data n o)
    (hn : 0 < n) (hd : ¬2 ^ 32 ∣ n - 1) : SpLive malk data (n - 1) (tuyaSmartpointerPut o) := by
  have hrfc : u32 (n - 1) ≠ 0 := fun h0 => hd (Nat.dvd_of_mod_eq_zero h0)
  rw [tuyaSmartpointerPut_eq, h.put_rfc hn, if_neg hrfc]
  exact ⟨rfl, h.flag, h.own, h.kept⟩

/-- The put that brings the count to zero. -/
theorem SpLive.last {malk : Bool} {data n : ℕ} {o : SpObject} (h : SpLive malk data n o)
    (hn : 0 < n) (hd : 2 ^ 32 ∣ n - 1) : (tuyaSmartpointerPut o).frees = [o.sp.data, o.addr] := by
  have hrfc : u32 (n - 1) = 0 := Nat.mod_eq_zero_of_dvd hd
  rw [tuyaSmartpointerPut_eq, h.put_rfc hn, if_pos hrfc]
  simp [tuyaSmartpointerDel, h.flag, h.kept]

/-- What is released after every number of calls, peeled at the first call. -/
theorem forall_prefix_cons {c : SpCall} {cs : List SpCall} {P : List SpCall → Prop} :
    (∀ p, p <+: c :: cs → P p) ↔ P [] ∧ ∀ p, p <+: cs → P (c :: p) := by
  constructor
  · exact fun h => ⟨h [] nil_prefix, fun p hp => h _ (cons_prefix_cons.mpr ⟨rfl, hp⟩)⟩
  · rintro ⟨h0, h1⟩ p hp
    rcases prefix_cons_iff.mp hp with rfl | ⟨q, rfl, hq⟩
    · exact h0
    · exact h1 q hq

theorem released_cons {m : ℕ} {o' : SpObject} {c : SpCall}
    (hrun : c.run o = some o') (haddr : o'.addr = o.addr)
    (hrefs : ∀ cs, references n (c :: cs) = references m cs) (cs : List SpCall) :
    Released malk data n o (c :: cs) ↔ Released malk data m o' cs := by
  simp only [Released, SpObject.runs, hrun, Option.bind_some, hrefs, haddr]

theorem SpLive.released_nil (h : SpLive malk data n o)
    (hn : 0 < n) : Released malk data n o [] :=
  ⟨o, rfl, fun _ => h.kept, fun h0 => by simp only [references] at h0; omega⟩

/-- The whole run, by induction on the calls; the object is live with `n` references in front
of them. -/
theorem SpLive.released_iff_of_live {cs : List SpCall} (h : SpLive malk data n o) (hn : 0 < n) (hheld : Held n cs) :
    (∀ p, p <+: cs → Released malk data n o p) ↔
      (malk = false ∨ 0 < references n cs) ∧ Unwrapped n cs := by
  induction cs generalizing n o with
  | nil =>
    simp only [prefix_nil, forall_eq, Unwrapped, and_true]
    exact ⟨fun _ => .inr hn, fun _ => h.released_nil hn⟩
  | cons c cs ih =>
    rw [forall_prefix_cons, and_iff_right (h.released_nil hn)]
    cases c with
    | get =>
      obtain ⟨hrun, hlive⟩ := h.get
      simp only [released_cons (c := .get) hrun rfl (fun _ => rfl)]
      exact ih hlive (by omega) hheld.2
    | put =>
      have haddr := tuyaSmartpointerPut_addr o
      simp only [released_cons (c := .put) h.put_run haddr (fun _ => rfl)]
      by_cases hd : 2 ^ 32 ∣ n - 1
      · have hfrees := h.last hn hd
        rcases Nat.eq_zero_or_pos (n - 1) with h0 | hpos
        · -- the last reference: nothing is called behind it
          have hcs : cs = [] := by
            cases cs with
            | nil => rfl
            | cons c cs =>
              have := hheld.2
              cases c <;> exact absurd this.1 (by omega)
          subst hcs
          simp only [prefix_nil, forall_eq, Unwrapped, and_true, references, h0, Released,
            SpObject.runs, Option.some.injEq, exists_eq_left', hfrees, haddr]
          cases malk with
          | false => simp [spBlocks, h.own rfl]
          | true =>
            have hperm : ¬[o.sp.data, o.addr].Perm [o.addr] := fun hp => by
              simpa using hp.length_eq
            simp [spBlocks, hperm]
        · -- the count has wrapped: the object is released while it is referred to
          refine ⟨fun hall => ?_, fun hall => absurd (hall.2.1 hd) (by omega)⟩
          obtain ⟨o', ho', hkept, -⟩ := hall [] nil_prefix
          simp only [SpObject.runs, Option.some.injEq] at ho'
          subst ho'
          have hnil := hkept hpos
          rw [hfrees] at hnil
          simp at hnil
      · have hpos : 0 < n - 1 := by
          rcases Nat.eq_zero_or_pos (n - 1) with h0 | hpos
          · exact absurd (h0 ▸ Nat.dvd_zero _) hd
          · exact hpos
        rw [ih (h.put hn hd) hpos hheld.2]
        simp only [references, Unwrapped, hd, false_implies, true_and]

/-- A fresh object is live, with the references it was made with. -/
theorem tuyaSmartpointerCreate_live {malloc : ℕ → Option ℕ} {dataLen : ℕ}
    {cnt : ℕ} (hcnt : cnt < 2 ^ 32)
    (h : tuyaSmartpointerCreate malloc data dataLen malk cnt = some o) :
    SpLive malk data cnt o := by
  rw [tuyaSmartpointerCreate] at h
  split at h
  · simp at h
  · split at h
    · simp at h
    · obtain rfl := Option.some.inj h
      cases malk
      · exact ⟨(u32_of_lt hcnt).symm, rfl, fun _ => rfl, rfl⟩
      · exact ⟨(u32_of_lt hcnt).symm, rfl, fun h => by simp at h, rfl⟩

/-- **When the data is released exactly once.** For an object made with any data, flag and
count, and every sequence of calls by holders, what is released is right after every call
exactly when the object was made without `malk` or the last reference is not put, and no put
leaves a positive multiple of `2 ^ 32` references. -/
theorem released_iff {malloc : ℕ → Option ℕ} {data dataLen : ℕ} {malk : Bool} {cnt : ℕ}
    {o : SpObject} (hpos : 1 ≤ cnt) (hcnt : cnt < 2 ^ 32)
    (h : tuyaSmartpointerCreate malloc data dataLen malk cnt = some o) {cs : List SpCall}
    (hheld : Held cnt cs) :
    (∀ p, p <+: cs → Released malk data cnt o p) ↔
      (malk = false ∨ 0 < references cnt cs) ∧ Unwrapped cnt cs :=
  (tuyaSmartpointerCreate_live hcnt h).released_iff_of_live hpos hheld

/-- An object of two references, one more taken and all three put. -/
theorem released_three :
    Released false 0x1000 2 ⟨0x2000, ⟨false, 2, 8, 0x1000⟩, []⟩ [.get, .put, .put, .put] :=
  (@released_iff (fun _ => some 0x2000) 0x1000 8 false 2 _ (by decide) (by decide) (by decide)
    [.get, .put, .put, .put] (by simp [Held])).mpr ⟨.inl rfl, by simp only [Unwrapped]; decide⟩ _
    prefix_rfl

/-- **An object made with `malk` is not released right**: its only reference put, the address
of the copy, inside the combined block, goes to the allocator. -/
theorem malk_not_released :
    ∃ o, tuyaSmartpointerCreate (fun _ => some 0x2000) 0x1000 8 true 1 = some o ∧
      Held 1 [SpCall.put] ∧ o.runs [.put] = some ⟨0x2000, ⟨false, 0, 8, 0x2014⟩, [0x2014, 0x2000]⟩ ∧
      ¬Released true 0x1000 1 o [.put] := by
  refine ⟨_, rfl, by simp [Held], by decide, fun h => ?_⟩
  obtain ⟨o', ho', -, hperm⟩ := h
  obtain rfl := Option.some.inj ho'
  exact absurd (hperm rfl).length_eq (by decide)

end Tuya

end Gd32
