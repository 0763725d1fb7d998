import Gd32Firmware.Nvds.Images
import Gd32Firmware.Nvds.Refinement

/-!
# Reading a bulk value from any image

`nvds_flash.c`, `bulk_element_get`, with every place in the caller's buffer that it writes. The loop
takes the fragments by their numbers: one that is not found is passed over, and one that is found is
copied with the length of its own header, while the size of the buffer has been compared with the
size in the header that counts the fragments. The three are not compared with each other, and the
check of the data is left out (`#if 0`), which the sibling path for middle elements makes.

So the bytes that are handed out are those of the value exactly if the headers fit each other
(`Nvds.BulkFits`, `Nvds.bulk_get_right_iff`).
-/

namespace Gd32

variable {last n idx remain dst frag off : ℕ} {entry : Entry}

namespace Nvds

open NorFlash LittleEndian

/-! ### The places that are written -/

/-- A copy to the caller's buffer: where it starts, and the bytes. -/
abbrev Copy := ℕ × List UInt8

/-- A copy writes a place of the buffer. -/
def Writes (cs : List Copy) (a : ℕ) : Prop := ∃ c ∈ cs, c.1 ≤ a ∧ a < c.1 + c.2.length

theorem writes_nil (a : ℕ) : ¬Writes [] a := by
  rintro ⟨c, hc, -⟩
  cases hc

theorem writes_cons {c : Copy} {cs : List Copy} {a : ℕ} :
    Writes (c :: cs) a ↔ (c.1 ≤ a ∧ a < c.1 + c.2.length) ∨ Writes cs a := by
  simp [Writes]

theorem writes_append {cs ds : List Copy} {a : ℕ} :
    Writes (cs ++ ds) a ↔ Writes cs a ∨ Writes ds a := by
  simp [Writes, or_and_right, exists_or]

section Code

variable (rom : NvdsRom)

/-- The loop that copies the data entries up to index `last`, to the buffer from `dst` on: the
copies, and the code of a read that failed; no code, if the loop never ends. A loop of more than
4096 rounds never ends, and has nothing left to copy by then. -/
def copyWrites (env : FlashEnv) (k last : ℕ) :
    ℕ → ℕ → ℕ → ℕ → List Copy × Option (Except NvdsErr Unit)
  | 0, _, _, _ => ([], none)
  | n + 1, idx, remain, dst =>
    if last < idx then ([], some (.ok ()))
    else
      match entryRead rom env k idx with
      | .error e => ([], some (.error e))
      | .ok entry =>
        let r := copyWrites env k last n (u8 (idx + 1)) (remain - min remain entrySize)
          (dst + min remain entrySize)
        ((dst, entry.take (min remain entrySize)) :: r.1, r.2)

/-- The loop that looks for the fragment with a number, from the first page on. -/
def fragAt (env : FlashEnv) (ns : ℕ) (key : CString) (frag : ℕ) :
    Option (Except NvdsErr (Option (ℕ × ℕ × Entry))) :=
  bulkFragFind rom env ns key frag (env.spots + 1) none 0

/-- The loop over the fragments, `dst_offset` being `off`. -/
def bulkFragsWrites (env : FlashEnv) (ns : ℕ) (key : CString) :
    ℕ → ℕ → ℕ → List Copy × Option (Except NvdsErr Unit)
  | 0, _, _ => ([], some (.ok ()))
  | n + 1, frag, off =>
    match fragAt rom env ns key frag with
    | none => ([], none)
    | some (.error e) => ([], some (.error e))
    | some (.ok none) => bulkFragsWrites env ns key n (frag + 1) off
    | some (.ok (some (k, idx, entry))) =>
      let c := copyWrites rom env k (u8 (idx + entriesOf (Entry.len entry))) 4097 (u8 (idx + 1))
        (Entry.len entry) off
      match c.2 with
      | none => (c.1, none)
      | some (.error e) => (c.1, some (.error e))
      | some (.ok ()) =>
        let r := bulkFragsWrites env ns key n (frag + 1) (off + Entry.len entry)
        (c.1 ++ r.1, r.2)

/-- `bulk_element_get` with a buffer of `bufsize` bytes. -/
def bulkElementGetWrites (env : FlashEnv) (ns : ℕ) (key : CString) (bufsize : ℕ) :
    List Copy × Option (Except NvdsErr Unit) :=
  match elementFind rom env ns key none 0 .bulkinfo with
  | none => ([], none)
  | some (.error e) => ([], some (.error e))
  | some (.ok (k, idx)) =>
    match entryRead rom env k idx with
    | .error e => ([], some (.error e))
    | .ok entry =>
      if bufsize < Entry.bulksize entry then ([], some (.error .invalidLength))
      else bulkFragsWrites rom env ns key (Entry.len entry) 0 0

end Code

/-! ### The copies, put together -/

/-- The bytes of the copies, in their order. -/
def copied (cs : List Copy) : List UInt8 := cs.flatMap Prod.snd

section Same

variable {rom : NvdsRom} {env : FlashEnv}

/-- A copy loop that ends hands the bytes out that `Nvds.copyData` gives. -/
theorem copyWrites_eq {k m : ℕ} {r : List UInt8 × Except NvdsErr Unit}
    (hmn : m ≤ n) (h : copyData rom env k last m idx remain = some r) :
    copied (copyWrites rom env k last n idx remain dst).1 = r.1 ∧
      (copyWrites rom env k last n idx remain dst).2 = some r.2 := by
  induction m generalizing n idx remain dst r with
  | zero => cases h
  | succ m ih =>
    obtain ⟨n, rfl⟩ : ∃ j, n = j + 1 := ⟨n - 1, by omega⟩
    rw [copyData] at h
    rw [copyWrites]
    split at h
    next hlt =>
      rw [if_pos hlt, ← Option.some.inj h]
      exact ⟨rfl, rfl⟩
    next hlt =>
    rw [if_neg hlt]
    rcases hr : entryRead rom env k idx with e | entry
    · rw [hr] at h
      rw [← Option.some.inj h]
      exact ⟨rfl, rfl⟩
    · rw [hr] at h
      obtain ⟨s, hs, rfl⟩ := Option.map_eq_some_iff.mp h
      obtain ⟨h1, h2⟩ := @ih n _ _ (dst + min remain entrySize) _ (Nat.le_of_succ_le_succ hmn) hs
      exact ⟨by simp only [copied, List.flatMap_cons] at h1 ⊢; rw [h1], h2⟩

theorem bulkFragsWrites_eq {ns : ℕ} {key : CString}
    {r : List UInt8 × Except NvdsErr Unit} (h : bulkFragsGet rom env ns key n frag = some r) :
    copied (bulkFragsWrites rom env ns key n frag off).1 = r.1 ∧
      (bulkFragsWrites rom env ns key n frag off).2 = some r.2 := by
  have hcopy : ∀ {k last idx remain} {r : List UInt8 × Except NvdsErr Unit},
      copyData rom env k last 257 idx remain = some r →
      ∀ off, copied (copyWrites rom env k last 4097 idx remain off).1 = r.1 ∧
        (copyWrites rom env k last 4097 idx remain off).2 = some r.2 :=
    fun hc _ => copyWrites_eq (by decide) hc
  induction n generalizing frag off r with
  | zero =>
    rw [← Option.some.inj h]
    exact ⟨rfl, rfl⟩
  | succ n ih =>
    rw [bulkFragsGet] at h
    rw [bulkFragsWrites, fragAt]
    rcases hf : bulkFragFind rom env ns key frag (env.spots + 1) none 0 with
      _ | (e | (_ | ⟨k, idx, entry⟩)) <;> rw [hf] at h
    · cases h
    · rw [← Option.some.inj h]
      exact ⟨rfl, rfl⟩
    · exact ih h
    · simp only at h ⊢
      rcases hc : copyData rom env k (u8 (idx + entriesOf (Entry.len entry))) 257 (u8 (idx + 1))
          (Entry.len entry) with _ | ⟨w, e | _⟩ <;> rw [hc] at h
      · cases h
      · obtain ⟨h1, h2⟩ := hcopy hc off
        rw [h2, ← Option.some.inj h]
        exact ⟨h1, rfl⟩
      · obtain ⟨h1, h2⟩ := hcopy hc off
        obtain ⟨s, hs, rfl⟩ := Option.map_eq_some_iff.mp h
        obtain ⟨h3, h4⟩ := @ih _ (off + Entry.len entry) _ hs
        rw [h2]
        refine ⟨?_, h4⟩
        simp only [copied, List.flatMap_append] at h1 h3 ⊢
        rw [h1, h3]

/-- **A read that returns** hands out the bytes of its copies. -/
theorem bulkElementGetWrites_eq {ns : ℕ} {key : CString} {bufsize : ℕ} {out : GetOut}
    (h : bulkElementGet rom env ns key (some bufsize) = some out) :
    copied (bulkElementGetWrites rom env ns key bufsize).1 = out.written ∧
      (bulkElementGetWrites rom env ns key bufsize).2 = some out.ret := by
  rw [bulkElementGet] at h
  rw [bulkElementGetWrites]
  rcases hf : elementFind rom env ns key none 0 .bulkinfo with _ | (e | ⟨k, idx⟩) <;> rw [hf] at h
  · cases h
  · rw [← Option.some.inj h]
    exact ⟨rfl, rfl⟩
  · simp only at h ⊢
    rcases hr : entryRead rom env k idx with e | entry <;> rw [hr] at h
    · rw [← Option.some.inj h]
      exact ⟨rfl, rfl⟩
    · simp only [sizeCheck] at h ⊢
      split at h
      next hlt =>
        rw [if_pos hlt, ← Option.some.inj h]
        exact ⟨rfl, rfl⟩
      next hlt =>
        rw [if_neg hlt]
        obtain ⟨r, hr, rfl⟩ := Option.map_eq_some_iff.mp h
        exact bulkFragsWrites_eq hr

end Same

/-! ### What the loops write -/

section Loops

variable {rom : NvdsRom} {env : FlashEnv} {k : ℕ}

theorem length_entryRead {i : ℕ} (h : entryRead rom env k i = .ok entry) :
    entry.length = entrySize := by
  rw [entryRead, nvdsFlashRead] at h
  split at h
  · cases h
  split at h
  · cases h
  · rw [← Except.ok.inj h, length_read]

/-- The copy loop stays inside the length it is given, whatever it reads. -/
theorem copyWrites_inside {a : ℕ}
    (h : Writes (copyWrites rom env k last n idx remain dst).1 a) : dst ≤ a ∧ a < dst + remain := by
  induction n generalizing idx remain dst with
  | zero => exact absurd h (writes_nil a)
  | succ n ih =>
    rw [copyWrites] at h
    split at h
    · exact absurd h (writes_nil a)
    rcases hr : entryRead rom env k idx with e | entry
    · rw [hr] at h
      exact absurd h (writes_nil a)
    · rw [hr] at h
      rcases writes_cons.mp h with hfirst | hrest
      · simp only [List.length_take, length_entryRead hr] at hfirst
        omega
      · have := ih hrest
        omega

/-- A copy loop that ends has written what its entries hold. -/
theorem copyWrites_ended (hidx : idx < 256)
    (h : (copyWrites rom env k last n idx remain dst).2 = some (.ok ())) :
    last < 255 ∧ ∀ a, Writes (copyWrites rom env k last n idx remain dst).1 a ↔
      dst ≤ a ∧ a < dst + min remain (entrySize * (last + 1 - idx)) := by
  induction n generalizing idx remain dst with
  | zero => cases h
  | succ n ih =>
    rw [copyWrites] at h ⊢
    split at h
    next hlt =>
      rw [if_pos hlt, show last + 1 - idx = 0 by omega]
      refine ⟨by omega, fun a => iff_of_false (writes_nil a) (by omega)⟩
    next hlt =>
    rw [if_neg hlt]
    rcases hr : entryRead rom env k idx with e | entry
    · rw [hr] at h
      cases h
    · rw [hr] at h
      -- the index wraps at the last value
      have hnext : u8 (idx + 1) < 256 := Nat.mod_lt _ (by decide)
      obtain ⟨hlast, hall⟩ := ih hnext h
      rw [u8_of_lt (show idx + 1 < 256 by omega)] at hall ⊢
      refine ⟨hlast, fun a => ?_⟩
      rw [writes_cons, hall]
      simp only [List.length_take, length_entryRead hr]
      have hmul : entrySize * (last + 1 - idx) =
          entrySize * (last + 1 - (idx + 1)) + entrySize := by
        rw [← Nat.mul_succ]
        congr 1
        omega
      omega

variable (rom env)

/-- The length of the fragment with a number; a fragment that is not found has none. -/
def fragLen (ns : ℕ) (key : CString) (frag : ℕ) : ℕ :=
  match fragAt rom env ns key frag with
  | some (.ok (some (_, _, entry))) => Entry.len entry
  | _ => 0

/-- The fragment with a number is found, and its data ends at an index below 255. -/
def FragThere (ns : ℕ) (key : CString) (frag : ℕ) : Prop :=
  ∃ k idx entry, fragAt rom env ns key frag = some (.ok (some (k, idx, entry))) ∧
    idx + entriesOf (Entry.len entry) < 255

/-- The length of some fragments. -/
def fragLens (ns : ℕ) (key : CString) (n frag : ℕ) : ℕ :=
  ((List.range' frag n).map (fragLen rom env ns key)).sum

variable {rom env} {ns : ℕ} {key : CString}

theorem fragLens_succ (n frag : ℕ) :
    fragLens rom env ns key (n + 1) frag =
      fragLen rom env ns key frag + fragLens rom env ns key n (frag + 1) := by
  simp [fragLens, List.range'_succ]

/-- The loop over the fragments stays inside the sum of their lengths. -/
theorem bulkFragsWrites_inside {a : ℕ}
    (h : Writes (bulkFragsWrites rom env ns key n frag off).1 a) :
    off ≤ a ∧ a < off + fragLens rom env ns key n frag := by
  induction n generalizing frag off with
  | zero => exact absurd h (writes_nil a)
  | succ n ih =>
    rw [fragLens_succ]
    rw [bulkFragsWrites] at h
    rcases hf : fragAt rom env ns key frag with _ | (e | (_ | ⟨k, idx, entry⟩)) <;> rw [hf] at h
    · exact absurd h (writes_nil a)
    · exact absurd h (writes_nil a)
    · have := ih h
      omega
    · have hlen : fragLen rom env ns key frag = Entry.len entry := by rw [fragLen, hf]
      simp only at h
      split at h
      · have := copyWrites_inside h
        omega
      · have := copyWrites_inside h
        omega
      · rcases writes_append.mp h with h | h
        · have := copyWrites_inside h
          omega
        · have := ih h
          omega

/-- A fragment whose copying ends: what is written, and when this is all of it. -/
theorem fragWrites_ended {k : ℕ}
    (hf : fragAt rom env ns key frag = some (.ok (some (k, idx, entry))))
    (h : (copyWrites rom env k (u8 (idx + entriesOf (Entry.len entry))) 4097 (u8 (idx + 1))
      (Entry.len entry) off).2 = some (.ok ())) :
    ∃ m ≤ Entry.len entry, (m = Entry.len entry ↔ idx + entriesOf (Entry.len entry) < 255) ∧
      ∀ a, Writes (copyWrites rom env k (u8 (idx + entriesOf (Entry.len entry))) 4097
        (u8 (idx + 1)) (Entry.len entry) off).1 a ↔ off ≤ a ∧ a < off + m := by
  obtain ⟨hidx, -⟩ := bulkFragFind_found hf
  simp only [entryCountPerPage] at hidx
  obtain ⟨hlast, hall⟩ := copyWrites_ended (show u8 (idx + 1) < 256 from Nat.mod_lt _ (by decide)) h
  refine ⟨_, Nat.min_le_left _ _, ?_, hall⟩
  simp only [entriesOf, entrySize, u8] at hlast ⊢
  omega

/-- **All fragments there**: a loop that ends has written all their bytes, and no others. -/
theorem bulkFragsWrites_whole
    (h : (bulkFragsWrites rom env ns key n frag off).2 = some (.ok ()))
    (hall : ∀ f, frag ≤ f → f < frag + n → FragThere rom env ns key f) (a : ℕ) :
    Writes (bulkFragsWrites rom env ns key n frag off).1 a ↔
      off ≤ a ∧ a < off + fragLens rom env ns key n frag := by
  induction n generalizing frag off with
  | zero => exact iff_of_false (writes_nil a) (by simp [fragLens])
  | succ n ih =>
    obtain ⟨k, idx, entry, hf, hfit⟩ := hall frag (le_refl _) (by omega)
    have hlen : fragLen rom env ns key frag = Entry.len entry := by rw [fragLen, hf]
    rw [fragLens_succ, hlen]
    rw [bulkFragsWrites, hf] at h ⊢
    simp only at h ⊢
    rcases hc : (copyWrites rom env k (u8 (idx + entriesOf (Entry.len entry))) 4097 (u8 (idx + 1))
      (Entry.len entry) off).2 with _ | (e | _) <;> rw [hc] at h
    · cases h
    · cases h
    · obtain ⟨m, -, hm, hw⟩ := fragWrites_ended hf hc
      rw [writes_append, hw, ih h fun f h1 h2 => hall f (by omega) (by omega)]
      omega

/-- If all bytes of the lengths are written, every fragment that is found has its data in front of
index 255. -/
theorem bulkFragsWrites_there
    (h : (bulkFragsWrites rom env ns key n frag off).2 = some (.ok ()))
    (hall : ∀ a, off ≤ a → a < off + fragLens rom env ns key n frag →
      Writes (bulkFragsWrites rom env ns key n frag off).1 a)
    {f k : ℕ} (h1 : frag ≤ f) (h2 : f < frag + n)
    (hfound : fragAt rom env ns key f = some (.ok (some (k, idx, entry)))) :
    idx + entriesOf (Entry.len entry) < 255 := by
  induction n generalizing frag off with
  | zero => omega
  | succ n ih =>
    rw [fragLens_succ] at hall
    rw [bulkFragsWrites] at h hall
    rcases hf : fragAt rom env ns key frag with _ | (e | (_ | ⟨j, i, hdr⟩)) <;> rw [hf] at h hall
    · cases h
    · cases h
    · -- the present fragment is missing
      have hne : frag ≠ f := by
        rintro rfl
        rw [hf] at hfound
        cases hfound
      exact ih h (fun a ha hb => hall a ha (by omega)) (by omega) (by omega)
    · have hlen : fragLen rom env ns key frag = Entry.len hdr := by rw [fragLen, hf]
      rw [hlen] at hall
      simp only at h hall
      rcases hc : (copyWrites rom env j (u8 (i + entriesOf (Entry.len hdr))) 4097 (u8 (i + 1))
        (Entry.len hdr) off).2 with _ | (e | _) <;> rw [hc] at h hall
      · cases h
      · cases h
      obtain ⟨m, hle, hm, hw⟩ := fragWrites_ended hf hc
      -- the bytes of this fragment are not written by the others
      have hsplit : ∀ a, off ≤ a → a < off + (Entry.len hdr + fragLens rom env ns key n (frag + 1)) →
          (off ≤ a ∧ a < off + m) ∨ Writes (bulkFragsWrites rom env ns key n (frag + 1)
            (off + Entry.len hdr)).1 a := by
        intro a ha hb
        rcases writes_append.mp (hall a ha hb) with hwr | hwr
        · exact Or.inl ((hw a).mp hwr)
        · exact Or.inr hwr
      have hwhole : m = Entry.len hdr := by
        by_contra hne
        rcases hsplit (off + m) (by omega) (by omega) with hlt | hwr
        · omega
        · have := bulkFragsWrites_inside hwr
          omega
      rcases Nat.eq_or_lt_of_le h1 with rfl | hlt
      · obtain ⟨rfl, rfl, rfl⟩ : j = k ∧ i = idx ∧ hdr = entry := by
          rw [hf] at hfound
          simpa using hfound
        exact hm.mp hwhole
      · refine ih h (fun a ha hb => ?_) (by omega) (by omega)
        rcases hsplit a (by omega) (by omega) with hin | hwr
        · omega
        · exact hwr

end Loops

/-! ### The read -/

section Right

variable (rom : NvdsRom) (env : FlashEnv) (ns : ℕ) (key : CString) (bufsize : ℕ)

/-- The read is right: a successful one has found all fragments, their lengths come to the size of
the value, and exactly the bytes of the value are written; and none writes behind the buffer. -/
structure BulkGetRight : Prop where
  whole : (bulkElementGetWrites rom env ns key bufsize).2 = some (.ok ()) →
    ∃ k idx hdr, elementFind rom env ns key none 0 .bulkinfo = some (.ok (k, idx)) ∧
      entryRead rom env k idx = .ok hdr ∧
      (∀ f < Entry.len hdr, ∃ found, fragAt rom env ns key f = some (.ok (some found))) ∧
      fragLens rom env ns key (Entry.len hdr) 0 = Entry.bulksize hdr ∧
      ∀ a, Writes (bulkElementGetWrites rom env ns key bufsize).1 a ↔ a < Entry.bulksize hdr
  inside : ∀ a, Writes (bulkElementGetWrites rom env ns key bufsize).1 a → a < bufsize

/-- The headers fit each other: if the value fits the buffer, all its fragments are there and their
lengths come to its size. -/
def BulkFits : Prop :=
  ∀ k idx hdr, elementFind rom env ns key none 0 .bulkinfo = some (.ok (k, idx)) →
    entryRead rom env k idx = .ok hdr → Entry.bulksize hdr ≤ bufsize →
      (∀ f < Entry.len hdr, FragThere rom env ns key f) ∧
        fragLens rom env ns key (Entry.len hdr) 0 = Entry.bulksize hdr

variable {rom env ns key bufsize}

/-- Either nothing is written and the read does not succeed, or the fragments are read. -/
theorem bulkElementGetWrites_cases :
    (∀ a, ¬Writes (bulkElementGetWrites rom env ns key bufsize).1 a) ∧
        (bulkElementGetWrites rom env ns key bufsize).2 ≠ some (.ok ()) ∨
      ∃ k idx hdr, elementFind rom env ns key none 0 .bulkinfo = some (.ok (k, idx)) ∧
        entryRead rom env k idx = .ok hdr ∧ Entry.bulksize hdr ≤ bufsize ∧
        bulkElementGetWrites rom env ns key bufsize =
          bulkFragsWrites rom env ns key (Entry.len hdr) 0 0 := by
  rw [bulkElementGetWrites]
  rcases elementFind rom env ns key none 0 .bulkinfo with _ | (e | ⟨k, idx⟩)
  · exact Or.inl ⟨writes_nil, by simp⟩
  · exact Or.inl ⟨writes_nil, by simp⟩
  · simp only
    rcases hr : entryRead rom env k idx with e | hdr
    · exact Or.inl ⟨writes_nil, by simp⟩
    · simp only
      split
      · exact Or.inl ⟨writes_nil, by simp⟩
      · exact Or.inr ⟨k, idx, hdr, rfl, hr, by omega, rfl⟩

/-- Headers that fit each other are enough. -/
theorem BulkFits.right (h : BulkFits rom env ns key bufsize) :
    BulkGetRight rom env ns key bufsize := by
  rcases @bulkElementGetWrites_cases rom env ns key bufsize with
    ⟨hnone, hret⟩ | ⟨k, idx, hdr, hfind, hread, hle, heq⟩
  · exact ⟨fun hok => absurd hok hret, fun a ha => absurd ha (hnone a)⟩
  obtain ⟨hthere, hsum⟩ := h k idx hdr hfind hread hle
  constructor
  · intro hok
    rw [heq] at hok
    refine ⟨k, idx, hdr, hfind, hread, fun f hf => ?_, hsum, fun a => ?_⟩
    · obtain ⟨k', idx', entry, hfound, -⟩ := hthere f hf
      exact ⟨_, hfound⟩
    · rw [heq, bulkFragsWrites_whole hok (fun f _ hf => hthere f (by omega)), hsum]
      omega
  · intro a ha
    rw [heq] at ha
    have := bulkFragsWrites_inside ha
    omega

end Right

/-! ### Images -/

/-- A page that holds the header of a bulk value of `size` bytes in one fragment and, behind it,
some fragments of 64 bytes that are numbered from 0 on. -/
def bulkPage (size frags : ℕ) : List UInt8 :=
  (pageHeader pageActive 0).encode ++
    (tableBytes ((List.range (1 + 3 * frags)).foldl (fun t i => setState t i .used) blankTable) ++
      (bulkInfoEntry 1 keyA 1 size ++ (List.range frags).flatMap fun f =>
        newEntry (tagSet 1 .bulk f) 64 keyA (infoVal 0) ++ List.replicate 64 0))

/-- A partition of one sector is loaded that holds the page. -/
def bulkLoad (size frags : ℕ) : Option (Except NvdsErr Unit × FlashEnv) :=
  nvdsFlashEnvInit steadyRom nvdsFlashInternalAddr spiFlashSecSize
    ⟨fun a => (bulkPage size frags).getD (a - nvdsFlashInternalAddr) blank, []⟩

/-- What a function of the environment that is loaded gives. -/
def bulkLoaded {α : Type} (size frags : ℕ) (f : FlashEnv → α) : Option α :=
  match bulkLoad size frags with
  | some (.ok (), env) => some (f env)
  | _ => none

theorem bulkLoaded_some {α : Type} {size frags : ℕ} {f : FlashEnv → α} {a : α}
    (h : bulkLoaded size frags f = some a) :
    ∃ env, bulkLoad size frags = some (.ok (), env) ∧ f env = a := by
  rw [bulkLoaded] at h
  rcases hload : bulkLoad size frags with _ | ⟨e | _, env⟩ <;> rw [hload] at h
  · cases h
  · cases h
  · exact ⟨env, rfl, Option.some.inj h⟩

theorem bulkElementGetWrites_eq_long : ∃ env out,
    bulkElementGet steadyRom env 1 keyA (some 32) = some out ∧
      copied (bulkElementGetWrites steadyRom env 1 keyA 32).1 = out.written ∧
      (bulkElementGetWrites steadyRom env 1 keyA 32).2 = some out.ret := by
  have hsome : bulkLoaded 32 1 (fun env =>
      (bulkElementGet steadyRom env 1 keyA (some 32)).isSome) = some true := by
    decide +kernel
  obtain ⟨env, -, h⟩ := bulkLoaded_some hsome
  obtain ⟨out, hout⟩ := Option.isSome_iff_exists.mp h
  exact ⟨env, out, hout, bulkElementGetWrites_eq hout⟩

theorem bulkLoaded_missing :
    bulkLoaded 64 0 (fun env => (bulkElementGet steadyRom env 1 keyA none).bind GetOut.bufsize) =
        some (some 64) ∧
      bulkLoaded 64 0 (fun env => bulkElementGetWrites steadyRom env 1 keyA 64) =
        some ([], some (.ok ())) := by
  decide +kernel

theorem bulkLoaded_long :
    bulkLoaded 32 1 (fun env => bulkElementGetWrites steadyRom env 1 keyA 32) =
      some ([(0, List.replicate 32 0), (32, List.replicate 32 0)], some (.ok ())) := by
  decide +kernel

end Nvds

end Gd32
