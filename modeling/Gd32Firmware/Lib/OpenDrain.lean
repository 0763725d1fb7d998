import Mathlib.Tactic.Common

/-!
# A bus of two open-drain lines

A clock line and a data line, each of which is low when one of two parties, a master and a slave,
pulls it low. What has been on the lines is a list of levels, the newest first. It is read as symbols
(`OpenDrain.decode`): while the clock is low nothing counts; a change of the data while it is high is
a start or a stop; and a clock pulse without such a change is a bit.

A slave is what it does next, given what has been on the lines. `OpenDrain.Follows` says what is asked
of it: to change nothing while the clock is high, to leave the data to the master where it is the
master's turn, and not to hold the clock for too long. A run of the master then goes from one of two
states to the other, with the clock low (`OpenDrain.Down`) and with the clock high
(`OpenDrain.High`).
-/

namespace OpenDrain

open List

/-! ### Lines and symbols -/

/-- The levels of the two lines, or what a party does to them: `true` lets a line go. -/
structure Lines where
  scl : Bool
  sda : Bool

/-- What can be read from the lines. -/
inductive Symbol where
  /-- The data falls while the clock is high. -/
  | start
  /-- The data rises while the clock is high. -/
  | stop
  /-- A clock pulse with the data at a level. -/
  | bit (b : Bool)

/-- What has been read: the level in the pulse that has begun, and the symbols, each with a remark. -/
structure Decoded (α : Type*) where
  /-- The data when the clock rose, unless it has changed. -/
  sample : Option Bool
  out : List (Symbol × α)

section Decode

variable {α β : Type*}

/-- One level after the other. -/
def decodeStep (a : α) (l' l : Lines) (d : Decoded α) : Decoded α :=
  match l'.scl, l.scl with
  | false, false => d
  | false, true => ⟨some l.sda, d.out⟩
  | true, false => ⟨none, d.out ++ (d.sample.map fun b => (Symbol.bit b, a)).toList⟩
  | true, true =>
    if l.sda = l'.sda then d
    else ⟨none, d.out ++ [(if l.sda then Symbol.stop else Symbol.start, a)]⟩

/-- All that has been read; the remark on a symbol is made with what was before it. -/
def decode (f : List Lines → α) : List Lines → Decoded α
  | [] => ⟨none, []⟩
  | [_] => ⟨none, []⟩
  | l :: l' :: h => decodeStep (f (l' :: h)) l' l (decode f (l' :: h))

/-- The symbols do not depend on the remarks. -/
theorem decode_map (f : List Lines → α) (g : α → β) (h : List Lines) :
    decode (fun h => g (f h)) h =
      ⟨(decode f h).sample, (decode f h).out.map fun x => (x.1, g x.2)⟩ := by
  induction h with
  | nil => rfl
  | cons l h ih =>
    cases h with
    | nil => rfl
    | cons l' h =>
      rw [decode, decode, ih]
      unfold decodeStep
      cases l'.scl <;> cases l.scl
      · rfl
      · rfl
      · cases (decode f (l' :: h)).sample <;> simp
      · split_ifs <;> simp

/-- What has been read is not taken back. -/
theorem decode_of_suffix (f : List Lines → α) {h h' : List Lines} (hsuffix : h <:+ h') :
    (decode f h).out <+: (decode f h').out := by
  induction h' with
  | nil =>
    obtain rfl := suffix_nil.mp hsuffix
    exact prefix_rfl
  | cons l t ih =>
    rcases suffix_cons_iff.mp hsuffix with rfl | hsuffix
    · exact prefix_rfl
    · refine (ih hsuffix).trans ?_
      cases t with
      | nil => exact prefix_rfl
      | cons l' t =>
        rw [decode]
        unfold decodeStep
        cases l'.scl <;> cases l.scl
        · exact prefix_rfl
        · exact prefix_rfl
        · exact prefix_append _ _
        · by_cases hsda : l.sda = l'.sda
          · simp only [if_pos hsda, prefix_rfl]
          · rw [if_neg hsda]
            exact prefix_append _ _

end Decode

/-! ### Whose turn it is -/

/-- Where a transfer is. -/
inductive Phase where
  | free
  | address (n : ℕ)
  /-- Before the answer to the address, which asks to read or to write. -/
  | addressAck (read : Bool)
  /-- In a byte that is written, after some bits. -/
  | write (n : ℕ)
  | writeAck
  /-- In a byte that is read, after some bits. -/
  | read (n : ℕ)
  | readAck

namespace Phase

/-- Where it is after one symbol more. -/
def next (p : Phase) : Symbol → Phase
  | .start => address 0
  | .stop => free
  | .bit b =>
    match p with
    | free => free
    | address n => if n = 7 then addressAck b else address (n + 1)
    | addressAck r => if b then free else if r then read 0 else write 0
    | write n => if n = 7 then writeAck else write (n + 1)
    | writeAck => if b then free else write 0
    | read n => if n = 7 then readAck else read (n + 1)
    | readAck => if b then free else read 0

/-- The slave may pull the data low. -/
def slaveMay : Phase → Bool
  | addressAck _ => true
  | writeAck => true
  | read _ => true
  | _ => false

/-- The slave lets the data go for some bits, whatever they are. -/
def quiet : ℕ → Phase → Bool
  | 0, _ => true
  | n + 1, p => !p.slaveMay && quiet n (p.next (.bit false)) && quiet n (p.next (.bit true))

theorem quiet_succ {n : ℕ} {p : Phase} (h : quiet (n + 1) p = true) :
    p.slaveMay = false ∧ ∀ b, quiet n (p.next (.bit b)) = true := by
  rw [quiet, Bool.and_eq_true, Bool.and_eq_true, Bool.not_eq_true'] at h
  refine ⟨h.1.1, fun b => ?_⟩
  cases b with
  | false => exact h.1.2
  | true => exact h.2

end Phase

/-- Where a transfer is after some symbols. -/
def phase (out : List Symbol) : Phase := out.foldl Phase.next .free

theorem phase_append (out out' : List Symbol) :
    phase (out ++ out') = out'.foldl Phase.next (phase out) :=
  foldl_append

/-! ### Slaves -/

/-- What a slave does next to the lines, given what has been on them. -/
abbrev Slave : Type := List Lines → Lines

/-- The number of instants up to now in which the slave has held the clock. -/
def held (slave : Slave) : List Lines → ℕ
  | [] => 0
  | _ :: h => if (slave h).scl then 0 else held slave h + 1

/-- **The slave follows the protocol.** When the clock has been low for two instants and it lets it go,
the data is settled. -/
structure Follows (slave : Slave) (limit : ℕ) : Prop where
  /-- While the clock is high it changes nothing. -/
  steady : ∀ l h, l.scl = true → slave (l :: h) = slave h
  /-- Where it is not its turn it lets the data go. -/
  turn : ∀ l l' h, l.scl = false → l'.scl = false → (slave (l :: l' :: h)).scl = true →
    (phase ((decode (fun _ => ()) (l :: l' :: h)).out.map Prod.fst)).slaveMay = false →
      (slave (l :: l' :: h)).sda = true
  /-- It does not hold the clock for too long. -/
  patient : ∀ h, held slave h < limit

/-- What has been exchanged: the symbols, each with what the slave did to the data. -/
def exchange (slave : Slave) : List Lines → Decoded Bool := decode fun h => (slave h).sda

/-- Where the transfer is. -/
def phaseOf (out : List (Symbol × Bool)) : Phase := phase (out.map Prod.fst)

theorem phaseOf_append (out out' : List (Symbol × Bool)) :
    phaseOf (out ++ out') = (out'.map Prod.fst).foldl Phase.next (phaseOf out) := by
  rw [phaseOf, phaseOf, map_append, phase_append]

/-! ### The master -/

/-- The bus from the master's side. -/
structure Wire where
  hist : List Lines
  scl : Bool
  sda : Bool

namespace Wire

/-- An instant passes. -/
def tick (slave : Slave) (w : Wire) : Wire :=
  { w with hist := ⟨w.scl && (slave w.hist).scl, w.sda && (slave w.hist).sda⟩ :: w.hist }

/-- The master does something to the clock. -/
def setScl (slave : Slave) (b : Bool) (w : Wire) : Wire := tick slave { w with scl := b }

/-- The master does something to the data. -/
def setSda (slave : Slave) (b : Bool) (w : Wire) : Wire := tick slave { w with sda := b }

/-- The level of the clock. -/
def sclLevel (w : Wire) : Bool := (w.hist.head?.map Lines.scl).getD false

/-- The level of the data. -/
def sdaLevel (w : Wire) : Bool := (w.hist.head?.map Lines.sda).getD false

/-- The second bus comes from the first one as time passes. -/
def Later (w w' : Wire) : Prop := w.hist <:+ w'.hist

theorem Later.trans {w w' w'' : Wire} (h : Later w w') (h' : Later w' w'') : Later w w'' :=
  List.IsSuffix.trans h h'

theorem later_tick (slave : Slave) (w : Wire) : Later w (w.tick slave) :=
  suffix_cons _ _

theorem later_setScl (slave : Slave) (b : Bool) (w : Wire) : Later w (w.setScl slave b) :=
  suffix_cons _ _

theorem later_setSda (slave : Slave) (b : Bool) (w : Wire) : Later w (w.setSda slave b) :=
  suffix_cons _ _

end Wire

variable {slave : Slave} {limit : ℕ} {w : Wire} {out : List (Symbol × Bool)} {smp : Option Bool}
  {x : Bool}

/-- The clock has been low for two instants. -/
structure Down (slave : Slave) (w : Wire) (out : List (Symbol × Bool)) : Prop where
  low : ∃ l l' h, w.hist = l :: l' :: h ∧ l.scl = false ∧ l'.scl = false
  exchanged : (exchange slave w.hist).out = out

/-- The clock is high, and stays so for the slave, which does `x` to the data. -/
structure High (slave : Slave) (w : Wire) (out : List (Symbol × Bool)) (smp : Option Bool)
    (x : Bool) : Prop where
  scl : w.scl = true
  level : ∃ h, w.hist = ⟨true, w.sda && x⟩ :: h
  drive : slave w.hist = ⟨true, x⟩
  exchanged : exchange slave w.hist = ⟨smp, out⟩

/-! ### With the clock low -/

namespace Down

/-- The clock stays low: nothing is exchanged. -/
theorem tick (h : Down slave w out) (hlow : (w.scl && (slave w.hist).scl) = false) :
    Down slave (w.tick slave) out := by
  obtain ⟨l, l', t, hhist, hl, hl'⟩ := h.low
  refine ⟨⟨_, l, l' :: t, by rw [Wire.tick, hhist], ?_, hl⟩, ?_⟩
  · rw [← hhist]
    exact hlow
  · rw [← h.exchanged, Wire.tick, hhist, exchange, decode, decodeStep, hl, ← hhist, hlow]

/-- The master does not hold the clock any longer, and neither does the slave. -/
theorem rise (h : Down slave w out) (hf : Follows slave limit) (hscl : w.scl = true)
    (hslave : (slave w.hist).scl = true) :
    High slave (w.tick slave) out (some (w.sda && (slave w.hist).sda)) (slave w.hist).sda := by
  obtain ⟨l, l', t, hhist, hl, hl'⟩ := h.low
  have hline : (w.scl && (slave w.hist).scl) = true := by rw [hscl, hslave]; rfl
  refine ⟨hscl, ⟨w.hist, by rw [Wire.tick, hline]⟩, ?_, ?_⟩
  · rw [Wire.tick, hf.steady _ _ hline]
    exact congrArg (Lines.mk · _) hslave
  · have hout := h.exchanged
    rw [Wire.tick, hline]
    rw [hhist] at hout ⊢
    rw [exchange, decode, decodeStep, hl, ← exchange, hout]

/-- The symbols do not depend on the remarks. -/
theorem symbols (h : Down slave w out) :
    (decode (fun _ => ()) w.hist).out.map Prod.fst = out.map Prod.fst := by
  rw [decode_map (fun h => (slave h).sda) (fun _ => ()) w.hist, ← h.exchanged, exchange,
    map_map]
  rfl

/-- Where it is not its turn the slave lets the data go. -/
theorem turn (h : Down slave w out) (hf : Follows slave limit)
    (hslave : (slave w.hist).scl = true) (hphase : (phaseOf out).slaveMay = false) :
    (slave w.hist).sda = true := by
  obtain ⟨l, l', t, hhist, hl, hl'⟩ := h.low
  rw [phaseOf, ← h.symbols] at hphase
  rw [hhist] at hslave hphase ⊢
  exact hf.turn l l' t hl hl' hslave hphase

/-- The slave has held the clock for one instant more. -/
theorem held_tick (hslave : (slave w.hist).scl = false) :
    held slave (w.tick slave).hist = held slave w.hist + 1 := by
  rw [Wire.tick, held, hslave, if_neg nofun]

end Down

/-! ### With the clock high -/

namespace High

/-- What is on the lines next. -/
theorem line (h : High slave w out smp x) (b : Bool) :
    (Wire.tick slave { w with sda := b }).hist = ⟨true, b && x⟩ :: w.hist := by
  rw [Wire.tick]
  rw [h.scl, h.drive]
  rfl

/-- The slave does the same again. -/
theorem drive_cons (h : High slave w out smp x) (hf : Follows slave limit) (b : Bool) :
    slave (⟨true, b⟩ :: w.hist) = ⟨true, x⟩ := by
  rw [hf.steady _ _ rfl]
  exact h.drive

/-- The data stays as it is. -/
theorem setSda (h : High slave w out smp x) (hf : Follows slave limit) {b : Bool}
    (hb : (b && x) = (w.sda && x)) : High slave (w.setSda slave b) out smp x := by
  obtain ⟨t, hhist⟩ := h.level
  have hline := h.line b
  refine ⟨h.scl, ⟨_, hline⟩, ?_, ?_⟩
  · rw [Wire.setSda, hline]
    exact h.drive_cons hf _
  · have hout := h.exchanged
    rw [Wire.setSda, hline]
    rw [hhist] at hout ⊢
    rw [exchange, decode, decodeStep, ← exchange, hout]
    rw [if_pos hb]

theorem tick (h : High slave w out smp x) (hf : Follows slave limit) :
    High slave (w.tick slave) out smp x :=
  h.setSda hf rfl

/-- The data falls: a start. -/
theorem start (h : High slave w out smp true) (hf : Follows slave limit) (hsda : w.sda = true) :
    High slave (w.setSda slave false) (out ++ [(.start, true)]) none true := by
  obtain ⟨t, hhist⟩ := h.level
  have hline := h.line false
  refine ⟨h.scl, ⟨_, hline⟩, ?_, ?_⟩
  · rw [Wire.setSda, hline]
    exact h.drive_cons hf _
  · have hout := h.exchanged
    have hdrive := h.drive
    rw [Wire.setSda, hline]
    rw [hhist, hsda] at hout hdrive ⊢
    rw [exchange, decode, decodeStep, ← exchange, hout, hdrive]
    rfl

/-- The data rises: a stop. -/
theorem stop (h : High slave w out smp true) (hf : Follows slave limit) (hsda : w.sda = false) :
    High slave (w.setSda slave true) (out ++ [(.stop, true)]) none true := by
  obtain ⟨t, hhist⟩ := h.level
  have hline := h.line true
  refine ⟨h.scl, ⟨_, hline⟩, ?_, ?_⟩
  · rw [Wire.setSda, hline]
    exact h.drive_cons hf _
  · have hout := h.exchanged
    have hdrive := h.drive
    rw [Wire.setSda, hline]
    rw [hhist, hsda] at hout hdrive ⊢
    rw [exchange, decode, decodeStep, ← exchange, hout, hdrive]
    rfl

/-- The master pulls the clock low: the pulse was a bit, if it has been a pulse. -/
theorem fallen (h : High slave w out smp x) :
    exchange slave (w.setScl slave false).hist =
      ⟨none, out ++ (smp.map fun b => (Symbol.bit b, x)).toList⟩ := by
  obtain ⟨t, hhist⟩ := h.level
  have hdrive := h.drive
  have hout := h.exchanged
  rw [Wire.setScl, Wire.tick]
  rw [hhist] at hout hdrive ⊢
  rw [exchange, decode, decodeStep, ← exchange, hout, hdrive]
  rfl

/-- It holds the clock low. -/
theorem fall (h : High slave w out smp x) :
    Down slave ((w.setScl slave false).tick slave)
      (out ++ (smp.map fun b => (Symbol.bit b, x)).toList) := by
  refine ⟨⟨_, _, _, rfl, rfl, rfl⟩, ?_⟩
  exact congrArg Decoded.out h.fallen

end High

end OpenDrain
