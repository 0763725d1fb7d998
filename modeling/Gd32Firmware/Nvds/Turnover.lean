import Gd32Firmware.Nvds.Changes

/-!
# Turning to a new page

`new_page_request` sets a free page up and, when that was the last free one, moves the records in
use of another page to it and erases that page. The copy goes slot by slot, over the slots that
are in use, so on a page of clean records it copies the records in use one after the other
(`picks_eq`). While it runs the new page holds the first of them and, possibly, a last
one that is cut off (`cutRecs`).
-/

namespace Gd32.Nvds

open NorFlash LittleEndian List NvdsM Function

/-! ### Records that are being copied -/

/-- A record in use of which `p` slots have been programmed and `m` are in use. -/
def Rec.cut (r : Rec) (m p : ℕ) : Rec where
  hdr := r.hdr
  data := r.data.take (p - 1) ++ List.replicate (r.data.length - (p - 1)) blankSlot
  states := List.replicate m .used ++ List.replicate (r.size - m) .free

/-- The records in use on a page to which `p` slots of `rs` have been copied, `m` of which are
in use. -/
def cutRecs : ℕ → ℕ → List Rec → List Rec
  | _, _, [] => []
  | m, p, r :: rs =>
    if m = 0 then []
    else if r.size ≤ m then r :: cutRecs (m - r.size) (p - r.size) rs
    else [r.cut m p]

theorem length_cutRecs_le (m p : ℕ) (rs : List Rec) : (cutRecs m p rs).length ≤ rs.length := by
  induction rs generalizing m p with
  | nil => simp [cutRecs]
  | cons r rs ih =>
    rw [cutRecs]
    split
    · simp
    · split
      · simpa using ih (m - r.size) (p - r.size)
      · simp

theorem cutRecs_all (rs : List Rec) : cutRecs (recsSize rs) (recsSize rs) rs = rs := by
  induction rs with
  | nil => rfl
  | cons r rs ih =>
    have hpos := r.size_pos
    rw [cutRecs, if_neg (by simp; omega), if_pos (by simp), recsSize_cons, Nat.add_sub_cancel_left,
      ih]

theorem length_data_cut {r : Rec} {m p : ℕ} : (r.cut m p).data.length = r.data.length := by
  simp only [Rec.cut, length_append, length_take, length_replicate]
  omega

theorem wf_cutRecs {rs : List Rec} (h : ∀ r ∈ rs, r.Wf) (m p : ℕ) : ∀ r ∈ cutRecs m p rs, r.Wf := by
  induction rs generalizing m p with
  | nil => simp [cutRecs]
  | cons r rs ih =>
    have hr := h r (by simp)
    rw [cutRecs]
    split
    · simp
    · next hm =>
      split
      · intro s hs
        rcases mem_cons.mp hs with rfl | hs
        · exact hr
        · exact ih (fun t ht => h t (by simp [ht])) _ _ s hs
      · next hsize =>
        intro s hs
        rw [mem_singleton.mp hs]
        refine ⟨hr.length_hdr, ?_, ?_, ?_, Or.inl ?_⟩
        · intro t ht
          rcases mem_append.mp ht with ht | ht
          · exact hr.length_slot t (mem_of_mem_take ht)
          · rw [eq_of_mem_replicate ht]
            rfl
        · rw [length_data_cut, hr.length_data]
          rfl
        · have hsz : (r.cut m p).size = r.size := by rw [Rec.size, length_data_cut, Rec.size]
          rw [hsz]
          simp only [Rec.cut, length_append, length_replicate]
          omega
        · obtain ⟨i, rfl⟩ : ∃ i, m = i + 1 := ⟨m - 1, by omega⟩
          simp [Rec.cut, replicate_succ]

theorem recsSize_cutRecs_le (m p : ℕ) (rs : List Rec) : recsSize (cutRecs m p rs) ≤ recsSize rs := by
  induction rs generalizing m p with
  | nil => simp [cutRecs]
  | cons r rs ih =>
    rw [cutRecs]
    split
    · simp
    · split
      · have := ih (m - r.size) (p - r.size)
        rw [recsSize_cons, recsSize_cons]
        omega
      · rw [recsSize_cons, recsSize_cons, recsSize_nil, Rec.size, length_data_cut, Rec.size]
        omega

/-- The states of the records that are being copied. -/
theorem getD_states_cutRecs {rs : List Rec} (h : ∀ r ∈ rs, r = .fresh r.hdr r.data) {m : ℕ}
    (hm : m ≤ recsSize rs) (p i : ℕ) :
    (recsStates (cutRecs m p rs)).getD i .free = if i < m then .used else .free := by
  induction rs generalizing m p i with
  | nil =>
    rw [recsSize_nil] at hm
    rw [if_neg (by omega)]
    rfl
  | cons r rs ih =>
    have hr : r.states = List.replicate r.size .used := by
      rw [h r (by simp)]
      rfl
    rw [cutRecs]
    split
    · next hm0 =>
      rw [if_neg (by omega)]
      rfl
    · split
      · next hsize =>
        rw [recsSize_cons] at hm
        have hrest := ih (fun s hs => h s (by simp [hs])) (show m - r.size ≤ recsSize rs by omega)
          (p - r.size) (i - r.size)
        rw [recsStates, flatMap_cons, hr]
        rcases Nat.lt_or_ge i r.size with hi | hi
        · rw [if_pos (by omega), getD_append _ _ _ _ (by simpa using hi),
            getD_replicate _ hi]
        · rw [getD_append_right _ _ _ _ (by simpa using hi), length_replicate]
          rw [recsStates] at hrest
          rw [hrest]
          by_cases him : i < m
          · rw [if_pos him, if_pos (by omega)]
          · rw [if_neg him, if_neg (by omega)]
      · rw [recsStates, flatMap_singleton, Rec.cut]
        have := getD_prolonged ([] : List EntryState) .used .free m (r.size - m) i
        simpa using this

/-- The slots of the records that are being copied. -/
theorem getD_slots_cutRecs {rs : List Rec} {m p : ℕ} (hmp : m ≤ p) {i : ℕ}
    (hi : i < recsSize (cutRecs m p rs)) :
    ((recsSlots rs).take p).getD i blankSlot =
      (recsSlots (cutRecs m p rs)).getD i blankSlot := by
  induction rs generalizing m p i with
  | nil => simp [cutRecs] at hi
  | cons r rs ih =>
    rw [cutRecs] at hi ⊢
    split
    · next hm0 => simp [hm0] at hi
    · next hm0 =>
      rw [if_neg hm0] at hi
      split
      · next hsize =>
        -- the record has been copied as a whole
        rw [if_pos hsize, recsSize_cons] at hi
        rw [recsSlots, recsSlots, flatMap_cons, flatMap_cons, take_append,
          take_of_length_le (by simp; omega), Rec.length_slots]
        rcases Nat.lt_or_ge i r.size with h1 | h1
        · rw [getD_append _ _ _ _ (by simpa using h1),
            getD_append _ _ _ _ (by simpa using h1)]
        · rw [getD_append_right _ _ _ _ (by simpa using h1),
            getD_append_right _ _ _ _ (by simpa using h1), Rec.length_slots]
          exact ih (by omega) (by omega)
      · next hsize =>
        -- of the record only the first slots have been copied
        rw [if_neg hsize, recsSize_cons, recsSize_nil, Rec.size, length_data_cut] at hi
        obtain ⟨q, rfl⟩ : ∃ q, p = q + 1 := ⟨p - 1, by omega⟩
        rw [recsSlots, recsSlots, flatMap_cons, flatMap_singleton]
        simp only [Rec.slots, Rec.cut, cons_append, take_succ_cons, Nat.add_sub_cancel]
        cases i with
        | zero => simp
        | succ i =>
          rw [getD_cons_succ, getD_cons_succ, take_append]
          rcases Nat.lt_or_ge i (r.data.take q).length with h1 | h1
          · rw [getD_append _ _ _ _ h1, getD_append _ _ _ _ h1]
          · rw [length_take] at h1
            rw [getD_append_right _ _ _ _ (by rw [length_take]; omega),
              getD_append_right _ _ _ _ (by rw [length_take]; omega),
              length_take, getD_replicate _ (by omega), getD_eq_default]
            rw [length_take]
            omega

/-! ### The copy loop -/

/-- The slots that the copy loop takes from a page at the given indices. -/
def picks (V : SlotPage) (is : List ℕ) : List (List UInt8) :=
  (is.filter fun i => decide (stateAt V.table i = .used)).map fun i => V.slots.getD i blankSlot

theorem picks_append (V : SlotPage) (is js : List ℕ) :
    picks V (is ++ js) = picks V is ++ picks V js := by simp [picks]

/-- The slots of one clean record. -/
theorem picks_rec {V : SlotPage} {pre post : List Rec} {r : Rec}
    (h : Laid V (pre ++ r :: post)) (hr : r.Clean) :
    picks V (List.range' (recsSize pre) r.size) = if r.live then r.slots else [] := by
  have hroom := h.size
  simp only [recsSize_append, recsSize_cons] at hroom
  have hstate : ∀ i ∈ List.range' (recsSize pre) r.size,
      stateAt V.table i = if r.live then .used else .updated := by
    intro i hi
    rw [mem_range'_1] at hi
    obtain ⟨j, rfl⟩ := Nat.exists_eq_add_of_le hi.1
    rw [h.stateAt_rec (by omega) (by omega), hr.states_eq, getD_replicate _ (by omega)]
  rw [picks]
  cases hlive : r.live with
  | true =>
    rw [filter_eq_self.mpr (fun i hi => by simp [hstate i hi, hlive]), if_pos rfl]
    refine ext_getElem (by simp) fun i h1 h2 => ?_
    have hi : i < r.size := by simpa using h1
    rw [getElem_map, getElem_range', Nat.one_mul, h.getD_slots hi,
      getD_eq_getElem _ _ h2]
  | false =>
    rw [filter_eq_nil_iff.mpr (fun i hi => by simp [hstate i hi, hlive])]
    simp

/-- **On a page of clean records the copy loop takes the records in use.** -/
theorem picks_eq {V : SlotPage} {rs : List Rec} (h : Laid V rs) (hclean : ∀ r ∈ rs, r.Clean) :
    picks V (List.range 126) = recsSlots (rs.filter Rec.live) := by
  -- the indices behind `pre`, record by record
  have hrecs : ∀ pre post, pre ++ post = rs →
      picks V (List.range' (recsSize pre) (recsSize post)) = recsSlots (post.filter Rec.live) := by
    intro pre post
    induction post generalizing pre with
    | nil => simp [picks, recsSlots]
    | cons r post ih =>
      rintro rfl
      have hrest := ih (pre ++ [r]) (by simp)
      rw [recsSize_append, recsSize_cons, recsSize_nil, Nat.add_zero] at hrest
      have hsplit := @List.range'_append (recsSize pre) r.size (recsSize post) 1
      rw [Nat.one_mul] at hsplit
      rw [recsSize_cons, ← hsplit, picks_append, picks_rec h (hclean r (by simp)), hrest]
      cases hlive : r.live <;> simp [hlive, recsSlots]
  -- the entries behind the last record are free
  have hfree : picks V (List.range' (recsSize rs) (126 - recsSize rs)) = [] := by
    rw [picks, filter_eq_nil_iff.mpr, map_nil]
    intro i hi
    rw [mem_range'_1] at hi
    rw [h.free_of_ge hi.1 (by omega)]
    simp
  have hsplit := @List.range'_append 0 (recsSize rs) (126 - recsSize rs) 1
  have hsize := h.size
  rw [Nat.one_mul, Nat.zero_add, Nat.add_sub_cancel' hsize] at hsplit
  rw [range_eq_range', ← hsplit, picks_append, hfree, append_nil]
  exact hrecs [] rs rfl

/-- A page to which slots of `all` are being copied: `m` of them are in use, and one more may have
been programmed. -/
structure Copying (hd : PageHeader) (all : List (List UInt8)) (m : ℕ) (Q : SlotPage) : Prop where
  header : Q.header = hd
  le : m ≤ all.length
  slots : Q.slots = all.take m ∨ Q.slots = all.take (m + 1)
  states : ∀ i < 126, stateAt Q.table i = if i < m then .used else .free

/-- What such a page holds. -/
theorem Copying.draws {hd : PageHeader} {rs : List Rec} {m : ℕ} {Q : SlotPage}
    (h : Copying hd (recsSlots rs) m Q) (hwf : ∀ r ∈ rs, r.Wf)
    (hfresh : ∀ r ∈ rs, r = .fresh r.hdr r.data) (hsize : recsSize rs ≤ 126) :
    ∃ p, m ≤ p ∧ Draws Q ⟨hd, cutRecs m p rs⟩ := by
  have hle := h.le
  rw [length_recsSlots] at hle
  have hslots : ∃ p, m ≤ p ∧ Q.slots = (recsSlots rs).take p := by
    rcases h.slots with e | e
    · exact ⟨m, le_rfl, e⟩
    · exact ⟨m + 1, Nat.le_succ m, e⟩
  obtain ⟨p, hp, hQ⟩ := hslots
  refine ⟨p, hp, h.header, wf_cutRecs hwf m p, (recsSize_cutRecs_le m p rs).trans hsize, ?_, ?_⟩
  · intro i hi
    rw [hQ]
    exact getD_slots_cutRecs hp hi
  · intro i hi
    rw [h.states i hi, getD_states_cutRecs hfresh hle]

section Copy

variable {rom : NvdsRom} (hrom : rom.Reliable) {env : FlashEnv} {n : ℕ} (hgeo : Geometry env n)
  {v p : ℕ} (hv : v < n) (hp : p < n) {V P : SlotPage} (hV : Shows env v V)
  (hP : Mirrors env p P) {hd : PageHeader} {all : List (List UInt8)} {m : ℕ}
  (hcopy : Copying hd all m P) (hslots : P.slots = all.take m)
include hrom hgeo hv hp hV hP hcopy hslots

/-- One round of the copy loop, at an entry in use. -/
theorem copyEntry_run {i : ℕ} (hi : i < 126) (hused : stateAt V.table i = .used)
    (hnext : all[m]? = some (V.slots.getD i blankSlot)) (hroom : all.length ≤ 126) :
    ∃ env' P', copyEntry rom v p i env = some (.ok (), env') ∧
      Touch p (fun Q => ∃ j, Copying hd all j Q) env env' ∧ Mirrors env' p P' ∧
      Copying hd all (m + 1) P' ∧ P'.slots = all.take (m + 1) ∧
      (env'.pages p).entryCntUsed = ((env.pages p).entryCntUsed + 1) % 2 ^ 16 := by
  obtain ⟨hm, hget⟩ := List.getElem?_eq_some_iff.mp hnext
  have hlen : (all.take m).length = m := by
    rw [length_take]
    omega
  have hlenP : P.slots.length = m := by rw [hslots, hlen]
  have he : (V.slots.getD i blankSlot).length = 32 := by
    rw [← hV.holds.slots i hi]
    simp
  have hread := entryRead_slot hrom hgeo hv hV hi
  obtain ⟨env1, hrun1, htouch1, hP1, hcnt1⟩ := entryWrite_run hrom hgeo hp hP he (by omega)
  have hslots1 : (P.push (V.slots.getD i blankSlot)).slots = all.take (m + 1) := by
    rw [SlotPage.push, slotsOf_entry he, hslots, ← hget, take_append_getElem]
  have hlen1 : (P.push (V.slots.getD i blankSlot)).slots.length = m + 1 := by
    rw [hslots1, length_take]
    omega
  have hidx : u8 ((env1.pages p).nextFreeIdx - 1) = m := by
    rw [hP1.next, hlen1, Nat.add_sub_cancel, u8_of_lt (by omega)]
  have hbelow : EntryState.used.Below (stateAt (P.push (V.slots.getD i blankSlot)).table m) := by
    rw [show (P.push (V.slots.getD i blankSlot)).table = P.table from rfl,
      hcopy.states m (by omega), if_neg (by omega)]
    exact EntryState.below_free _
  obtain ⟨env2, hrun2, htouch2, hP2, hcnt2⟩ := entryStateAlter_run hrom (htouch1.geometry hgeo) hp
    hP1 (show m < 126 by omega) (show EntryState.used ≠ .illegal by decide) hbelow
  -- the three pages on the way
  have hc1 : Copying hd all m (P.push (V.slots.getD i blankSlot)) :=
    ⟨hcopy.header, hcopy.le, Or.inr hslots1, hcopy.states⟩
  have hc2 : Copying hd all (m + 1)
      ((P.push (V.slots.getD i blankSlot)).setState m .used) := by
    refine ⟨hcopy.header, hm, Or.inl hslots1, fun j hj => ?_⟩
    have hlen8 := hP.holds.length_table
    rcases eq_or_ne j m with rfl | hjm
    · rw [if_pos (by omega)]
      exact stateAt_setState_self hlen8 (by omega) _
    · refine (stateAt_setState_of_ne hlen8 (by omega) _ hjm).trans ((hcopy.states j hj).trans ?_)
      by_cases hlt : j < m
      · rw [if_pos hlt, if_pos (by omega)]
      · rw [if_neg hlt, if_neg (by omega)]
  refine ⟨env2, _, ?_, ?_, hP2, hc2, hslots1, hcnt2.trans hcnt1⟩
  · rw [copyEntry, get_bind, hV.table, if_neg (by simp [hused]),
      bind_ok (look_ok hread), bind_ok hrun1, get_bind, hidx]
    exact hrun2
  · refine (htouch1.mono ?_).trans (htouch2.mono ?_)
    · rintro Q (rfl | rfl)
      · exact ⟨m, hcopy⟩
      · exact ⟨m, hc1⟩
    · rintro Q (rfl | rfl)
      · exact ⟨m, hc1⟩
      · exact ⟨m + 1, hc2⟩

/-- **The copy loop.** -/
theorem copyLoop_run (hne : v ≠ p) {is : List ℕ} (his : ∀ i ∈ is, i < 126)
    (hpicks : picks V is = all.drop m)
    (hcnt : (env.pages p).entryCntUsed < 2 ^ 16) (hroom : all.length ≤ 126) :
    ∃ env' P', NvdsM.forEach (copyEntry rom v p) is env = some (.ok (), env') ∧
      Touch p (fun Q => ∃ j, Copying hd all j Q) env env' ∧ Mirrors env' p P' ∧
      Copying hd all all.length P' ∧ P'.slots = all ∧
      (env'.pages p).entryCntUsed =
        ((env.pages p).entryCntUsed + (all.length - m)) % 2 ^ 16 := by
  induction is generalizing env P m with
  | nil =>
    -- everything has been copied
    have hm : m = all.length := by
      have hdrop := congrArg List.length hpicks
      simp only [picks, filter_nil, map_nil, length_nil, length_drop] at hdrop
      have := hcopy.le
      omega
    subst hm
    rw [take_length] at hslots
    refine ⟨env, P, rfl, ?_, hP, hcopy, hslots, ?_⟩
    · exact ⟨⟨env.pages p, env.dev, by rw [update_eq_self]⟩, [], by simp, rfl, by simp,
        P, ⟨_, hcopy⟩, hP.holds⟩
    · have hlt : (env.pages p).entryCntUsed < 2 ^ 16 := hcnt
      rw [Nat.sub_self, Nat.add_zero, Nat.mod_eq_of_lt hlt]
  | cons i is ih =>
    have hi : i < 126 := his i (by simp)
    have his' : ∀ j ∈ is, j < 126 := fun j hj => his j (by simp [hj])
    by_cases hused : stateAt V.table i = .used
    · -- the slot is copied
      have hcons : picks V (i :: is) = V.slots.getD i blankSlot :: picks V is := by
        simp [picks, hused]
      rw [hcons] at hpicks
      have hnext : all[m]? = some (V.slots.getD i blankSlot) := by
        have h0 := congrArg (fun l => l[0]?) hpicks
        simpa using h0.symm
      have hpicks' : picks V is = all.drop (m + 1) := by
        have h1 := congrArg List.tail hpicks
        simpa using h1
      obtain ⟨env1, P1, hrun1, htouch1, hP1, hcopy1, hslots1, hcnt1⟩ :=
        copyEntry_run hrom hgeo hv hp hV hP hcopy hslots hi hused hnext hroom
      obtain ⟨env2, P2, hrun2, htouch2, hP2, hcopy2, hslots2, hcnt2⟩ :=
        ih (htouch1.geometry hgeo) (htouch1.shows hne hV) hP1 hcopy1 hslots1 his' hpicks'
          (by rw [hcnt1]; exact Nat.mod_lt _ (by decide))
      refine ⟨env2, P2, ?_, htouch1.trans htouch2, hP2, hcopy2, hslots2, ?_⟩
      · rw [NvdsM.forEach, bind_ok hrun1]
        exact hrun2
      · have hle := hcopy1.le
        omega
    · -- it is passed over
      have hskip : copyEntry rom v p i env = some (.ok (), env) := by
        rw [copyEntry, get_bind, hV.table, if_pos hused]
        rfl
      have hpicks' : picks V is = all.drop m := by
        rw [← hpicks]
        simp [picks, hused]
      obtain ⟨env2, P2, hrun2, h2⟩ := ih hgeo hV hP hcopy hslots his' hpicks' hcnt
      refine ⟨env2, P2, ?_, h2⟩
      rw [NvdsM.forEach, bind_ok hskip]
      exact hrun2

end Copy

/-! ### Setting a page up -/

namespace Store

/-- The store with a free page set up behind the used ones. -/
def opened (S : Store) (p seq : ℕ) : Store where
  used := S.used ++ [p]
  free := S.free.erase p
  page := update S.page p ⟨pageHeader pageActive seq, []⟩

/-- The store with the records in use of page `v` moved to page `p`, and `v` free. -/
def evacuated (S : Store) (v p : ℕ) : Store where
  used := S.used.erase v
  free := S.free ++ [v]
  page := update S.page p { S.page p with recs := (S.page v).recs.filter Rec.live }

/-- The shots on the way from the one to the other. -/
def Evacuating (S : Store) (v p : ℕ) (T : Shot) : Prop :=
  T = S.shot ∨ (∃ m q, m ≤ q ∧ T = update (S.mark v pageCandidate).shot p
    (some { S.page p with recs := cutRecs m q ((S.page v).recs.filter Rec.live) })) ∨
  T = (S.evacuated v p).shot

/-- The used page with the fewest slots in use. -/
def victim (S : Store) : Option ℕ :=
  (S.used.foldl (fun acc p =>
    if (S.page p).usedCnt < acc.1 then ((S.page p).usedCnt, some p) else acc)
    (entryCountPerPage, none)).2

/-- What `new_page_request` makes of the store: the new page, and the store after it. -/
def turned (S : Store) (seq : ℕ) : Option (ℕ × Store) :=
  match S.free with
  | [] => none
  | [p] => S.victim.map fun v => (p, (S.opened p seq).evacuated v p)
  | p :: _ :: _ => some (p, S.opened p seq)

/-- The shots while a page is requested. -/
def Turning (S : Store) (seq : ℕ) (T : Shot) : Prop :=
  T = S.shot ∨ ∃ p rest, S.free = p :: rest ∧ (T = (S.opened p seq).shot ∨
    ∃ v, rest = [] ∧ S.victim = some v ∧ (S.opened p seq).Evacuating v p T)

end Store

theorem Store.perm_opened (S : Store) {p : ℕ} {rest : List ℕ} (hfree : S.free = p :: rest)
    (seq : ℕ) : ((S.opened p seq).used ++ (S.opened p seq).free).Perm (S.used ++ S.free) := by
  simp only [Store.opened, hfree, erase_cons_head, append_assoc]
  exact List.Perm.refl _

theorem Store.perm_evacuated (S : Store) {v : ℕ} (hv : v ∈ S.used) (p : ℕ) :
    ((S.evacuated v p).used ++ (S.evacuated v p).free).Perm (S.used ++ S.free) := by
  simp only [Store.evacuated, ← append_assoc]
  refine perm_append_comm.trans ?_
  exact (perm_cons_erase hv).symm.append_right _

/-- A victim is a used page with a slot that is not in use. -/
theorem Store.victim_spec {S : Store} {v : ℕ} (h : S.victim = some v) :
    v ∈ S.used ∧ (S.page v).usedCnt < 126 := by
  have hfold : ∀ (ks : List ℕ) (acc : ℕ × Option ℕ), acc.1 ≤ 126 →
      (∀ k ∈ ks, k ∈ S.used) → (∀ w, acc.2 = some w → w ∈ S.used ∧ (S.page w).usedCnt < 126) →
      ∀ w, (ks.foldl (fun acc p =>
        if (S.page p).usedCnt < acc.1 then ((S.page p).usedCnt, some p) else acc) acc).2 = some w →
      w ∈ S.used ∧ (S.page w).usedCnt < 126 := by
    intro ks
    induction ks with
    | nil => exact fun acc _ _ h => h
    | cons k ks ih =>
      intro acc hacc hks h
      rw [foldl_cons]
      split
      · next hlt =>
        refine ih _ (by simp only; omega) (fun j hj => hks j (by simp [hj])) ?_
        rintro w ⟨⟩
        exact ⟨hks k (by simp), by omega⟩
      · exact ih _ hacc (fun j hj => hks j (by simp [hj])) h
  exact hfold S.used _ (by decide) (fun _ h => h) (by simp) v h

theorem pickVictim_eq {n : ℕ} {env : FlashEnv} {S : Store} (hrep : Rep n env S) :
    pickVictim env = S.victim := by
  have hfold : ∀ (ks : List ℕ) (acc : ℕ × Option ℕ), (∀ k ∈ ks, k ∈ S.used) →
      ks.foldl (fun acc p => if (env.pages p).entryCntUsed < acc.1 then
        ((env.pages p).entryCntUsed, some p) else acc) acc =
      ks.foldl (fun acc p => if (S.page p).usedCnt < acc.1 then
        ((S.page p).usedCnt, some p) else acc) acc := by
    intro ks
    induction ks with
    | nil => exact fun _ _ => rfl
    | cons k ks ih =>
      intro acc hks
      rw [foldl_cons, foldl_cons, (hrep.pages k (hks k (by simp))).cnt]
      exact ih _ fun j hj => hks j (by simp [hj])
  rw [pickVictim, Store.victim, hrep.used_eq, hfold S.used _ fun _ h => h]

/-! ### Setting a page up in flash -/

theorem draws_opened (hd : PageHeader) : Draws ⟨hd, blankTable, []⟩ ⟨hd, []⟩ := by
  refine ⟨rfl, by simp, by simp, by simp, fun i hi => ?_⟩
  rw [stateAt_blankTable (by omega)]
  rfl

section Turn

variable {rom : NvdsRom} (hrom : rom.Reliable) {n : ℕ} {S : Store} {p v seq : ℕ}

/-- The store after a page has been set up. -/
theorem Rep.opened {rest : List ℕ} {env env' : FlashEnv} (hrep : Rep n env S)
    (hfree : S.free = p :: rest) {𝒬 : SlotPage → Prop} (htouch : Touch p 𝒬 env env')
    (hp : PageRep env' p ⟨pageHeader pageActive seq, []⟩) :
    Rep n { env' with pageFree := env'.pageFree.erase p, pageUsed := env'.pageUsed ++ [p] }
      (S.opened p seq) := by
  have hnd := nodup_append.mp hrep.nodup
  have hpfree : p ∈ S.free := by rw [hfree]; simp
  have hnot : p ∉ S.used := fun hused => hnd.2.2 p hused p hpfree rfl
  have hlists : env'.pageUsed = env.pageUsed ∧ env'.pageFree = env.pageFree := by
    obtain ⟨q, d, rfl⟩ := htouch.frame
    exact ⟨rfl, rfl⟩
  have hperm := S.perm_opened hfree seq
  have hgeo := htouch.geometry hrep.geo
  refine ⟨⟨hgeo.length_eq, hgeo.on_device⟩, ?_, ?_, hperm.nodup_iff.mpr hrep.nodup, ?_, ?_, ?_⟩
  · show env'.pageUsed ++ [p] = _
    rw [hlists.1, hrep.used_eq]
    rfl
  · show env'.pageFree.erase p = _
    rw [hlists.2, hrep.free_eq]
    rfl
  · intro k
    rw [hperm.mem_iff, hrep.mem_iff]
  · intro k hk
    suffices h : PageRep env' k ((S.opened p seq).page k) from h.congr rfl rfl rfl
    simp only [Store.opened]
    rcases mem_append.mp hk with hk | hk
    · have hkp : k ≠ p := ne_of_mem_of_not_mem hk hnot
      rw [update_of_ne hkp]
      exact (hrep.pages k hk).of_touch htouch hkp
    · rw [mem_singleton.mp hk, update_self]
      exact hp
  · intro k hk
    have hk' : k ∈ rest := by simpa [Store.opened, hfree] using hk
    have hkp : k ≠ p := by
      rintro rfl
      rw [hfree, nodup_cons] at hnd
      exact hnd.2.1.1 hk'
    exact ((hrep.frees k (by simp [hfree, hk'])).of_touch htouch hkp).congr rfl rfl rfl

theorem Store.shot_opened (S : Store) (p seq : ℕ) :
    (S.opened p seq).shot = update S.shot p (some ⟨pageHeader pageActive seq, []⟩) := by
  funext j
  by_cases hj : j = p
  · subst hj
    simp [Store.shot, Store.opened]
  · simp [Store.shot, Store.opened, hj]

include hrom

/-- `open_page` up to the lists, on a page that is free. -/
theorem openPage_run {env : FlashEnv} (hgeo : Geometry env n) (hp : p < n) (hfree : FreeRep env p)
    (hseq : seq < 2 ^ 32) :
    ∃ env', openPage rom p seq env = some (.ok (),
        { env' with pageFree := env'.pageFree.erase p, pageUsed := env'.pageUsed ++ [p] }) ∧
      Touch p (fun Q => Q = .blank ∨ Q = ⟨pageHeader pageActive seq, blankTable, []⟩) env env' ∧
      PageRep env' p ⟨pageHeader pageActive seq, []⟩ := by
  obtain ⟨hstate, hbase, hholds⟩ := hfree
  have hr : (pageHeader pageActive seq).InRange :=
    pageHeader_inRange (show pageActive < 256 ^ 2 by decide) (by omega)
  obtain ⟨hfits, hholds1⟩ := hholds.programHeader hr
  have hlen : (pageHeader pageActive seq).encode.length = 32 :=
    PageHeader.length_encode hr.length_rsv
  -- the header in memory, the header in flash, the state once more
  let env1 := env.setPage p { pageClear (env.pages p) with header := pageHeader pageActive seq }
  have hwrite := @nvdsFlashWrite_sector rom hrom env1 n ⟨hgeo.length_eq, hgeo.on_device⟩ p hp 0
    (pageHeader pageActive seq).encode (by omega)
  let env2 := env1.did (.program (env1.addr p + 0) (pageHeader pageActive seq).encode)
  have htouch : Touch p (fun Q => Q = .blank ∨
      Q = ⟨pageHeader pageActive seq, blankTable, []⟩) env env2 := by
    refine (touch_setPage _ (Or.inl rfl) hholds).trans
      (touch_did ⟨le_rfl, ?_⟩ hfits (Or.inl rfl) hholds (Or.inr rfl) hholds1)
    show env.addr p + (pageHeader pageActive seq).encode.length ≤ env.addr p + 4096
    omega
  have hm2 : Mirrors env2 p ⟨pageHeader pageActive seq, blankTable, []⟩ := by
    refine ⟨⟨hholds1, ?_, ?_, ?_⟩, ?_⟩
    · simp [env2, env1, FlashEnv.did, FlashEnv.setPage]
    · simp [env2, env1, FlashEnv.did, FlashEnv.setPage, pageClear]
    · simp [env2, env1, FlashEnv.did, FlashEnv.setPage, pageClear, hbase]
    · simp [env2, env1, FlashEnv.did, FlashEnv.setPage, pageClear]
  have hand : List.zipWith (· &&& ·) (bytes 2 pageActive) (bytes 2 pageActive) =
      bytes 2 pageActive := by decide
  obtain ⟨env3, hrun3, htouch3, hm3, hcnt3⟩ := pageStateAlter_run hrom (htouch.geometry hgeo)
    hp hm2 (show pageActive < 256 ^ 2 by decide) hand
  refine ⟨env3, ?_, htouch.trans (htouch3.mono ?_), ⟨_, hm3, draws_opened _, rfl⟩, ?_⟩
  · have hstale : eraseStale rom p env = some (.ok (), env) := by
      rw [eraseStale, get_bind, if_neg (not_not.mpr hstate)]
      rfl
    have hheader : (env1.pages p).header = pageHeader pageActive seq := by
      simp [env1, FlashEnv.setPage]
    have hbase1 : (env1.pages p).baseAddr = 4096 * p + 0 := by
      simp [env1, FlashEnv.setPage, pageClear, hbase]
    rw [openPage, bind_ok hstale, modify_bind, get_bind]
    change (nvdsFlashWrite rom (env1.pages p).baseAddr (env1.pages p).header.encode >>= _) env1 = _
    rw [hheader, hbase1, bind_ok hwrite, bind_ok hrun3]
    rfl
  · rintro Q (rfl | rfl) <;> exact Or.inr rfl
  · rw [hcnt3]
    simp [env2, env1, FlashEnv.did, FlashEnv.setPage, pageClear, APage.usedCnt]

/-- **Setting a free page up.** -/
theorem does_openPage {rest : List ℕ} (hfree : S.free = p :: rest) (hseq : seq < 2 ^ 32) :
    Does n (openPage rom p seq) S (.ok ()) (S.opened p seq) id
      (fun T => T = S.shot ∨ T = (S.opened p seq).shot) := by
  intro env hrep
  have hpfree : p ∈ S.free := by rw [hfree]; simp
  have hpn := hrep.free_lt hpfree
  have hnot : p ∉ S.used := fun hused =>
    (nodup_append.mp hrep.nodup).2.2 p hused p hpfree rfl
  obtain ⟨env', hrun, htouch, hp⟩ := openPage_run hrom hrep.geo hpn (hrep.frees p hpfree) hseq
  have hpic : ∀ Q, (Q = .blank ∨ Q = ⟨pageHeader pageActive seq, blankTable, []⟩) →
      ∃ o, (o = none ∨ o = some ⟨pageHeader pageActive seq, []⟩) ∧ Pictures Q o := by
    rintro Q (rfl | rfl)
    · exact ⟨none, Or.inl rfl, rfl⟩
    · exact ⟨_, Or.inr rfl, draws_opened _⟩
  have hgoes := htouch.goes hpn hrep.depicts hpic
  refine ⟨_, hrun, hrep.opened hfree htouch hp, ?_, ?_, ?_⟩
  · refine Goes.mono ⟨hgoes.base_eq, hgoes.length_eq, hgoes.calls⟩ ?_
    rintro T ⟨o, rfl | rfl, rfl⟩
    · have hT : S.shot p = none := by rw [Store.shot, if_neg hnot]
      exact Or.inl (by rw [← hT, update_eq_self])
    · exact Or.inr (S.shot_opened p seq).symm
  · obtain ⟨q, d, rfl⟩ := htouch.frame
    rfl
  · obtain ⟨q, d, rfl⟩ := htouch.frame
    rfl

omit hrom in
theorem Store.shot_evacuated (S : Store) (hnd : S.used.Nodup) (hp : p ∈ S.used) (hne : v ≠ p) :
    (S.evacuated v p).shot = update (update (S.mark v pageCandidate).shot p
      (some { S.page p with recs := (S.page v).recs.filter Rec.live })) v none := by
  funext j
  by_cases hjv : j = v
  · subst hjv
    rw [update_self, Store.shot, if_neg]
    exact hnd.not_mem_erase
  rw [update_of_ne hjv, Store.shot]
  by_cases hjp : j = p
  · subst hjp
    have hmem : j ∈ (S.evacuated v j).used := (mem_erase_of_ne hjv).mpr hp
    rw [update_self, if_pos hmem]
    simp [Store.evacuated]
  · rw [update_of_ne hjp, Store.shot]
    simp only [Store.evacuated, Store.mark, Store.used_setPage, mem_erase_of_ne hjv,
      update_of_ne hjp, Store.page_setPage_of_ne S hjv]

/-- The three steps of `evacuate` behind the change of the lists: the mark, the copy and the
erase. -/
theorem evacuate_run {env₀ env : FlashEnv} (hlists : env =
      { env₀ with pageUsed := env₀.pageUsed.erase v, pageFree := env₀.pageFree ++ [v] })
    (hgeo : Geometry env n) (hv : v < n) (hp : p < n)
    (hne : v ≠ p) {A : APage} {hd : PageHeader} (hV : PageRep env v A)
    (hA : A.searched = true) (hclean : ∀ r ∈ A.recs, r.Clean) (hP : PageRep env p ⟨hd, []⟩) :
    ∃ env1 env2 env3,
      evacuate rom v p env₀ = some (.ok (), env3) ∧
      Touch v (fun Q => Draws Q A ∨
        Draws Q (A.withState pageCandidate)) env env1 ∧
      Touch p (fun Q => ∃ m q, m ≤ q ∧ Draws Q ⟨hd, cutRecs m q (A.recs.filter Rec.live)⟩)
        env1 env2 ∧
      Touch v (fun Q => Draws Q (A.withState pageCandidate) ∨
        Q = .blank) env2 env3 ∧
      (∃ V, Holds env1.flash (env1.addr v) V ∧ Draws V (A.withState pageCandidate)) ∧
      PageRep env2 p ⟨hd, A.recs.filter Rec.live⟩ ∧ FreeRep env3 v := by
  obtain ⟨⟨V, hmV, hdV, -⟩, -⟩ := hV
  obtain ⟨⟨P, hmP, hdP, hsP⟩, hcP⟩ := hP
  -- the mark
  have hstate : V.header.state = pageActive ∨ V.header.state = pageFull := by
    rw [hdV.header]
    simpa [APage.searched] using hA
  have hand : List.zipWith (· &&& ·) (bytes 2 V.header.state) (bytes 2 pageCandidate) =
      bytes 2 pageCandidate := by
    rcases hstate with h | h <;> rw [h] <;> decide
  obtain ⟨env1, hrun1, htouch1, hmV1, -⟩ := pageStateAlter_run hrom hgeo hv hmV
    (show pageCandidate < 256 ^ 2 by decide) hand
  have hdV1 := hdV.withState pageCandidate
  have hgeo1 := htouch1.geometry hgeo
  have hmP1 := htouch1.mirrors hne.symm hmP
  -- the copy
  have hfresh : ∀ r ∈ A.recs.filter Rec.live, r = .fresh r.hdr r.data := by
    intro r hr
    rw [mem_filter] at hr
    exact (hclean r hr.1).eq_fresh hr.2
  have hwf : ∀ r ∈ A.recs.filter Rec.live, r.Wf := fun r hr =>
    hdV.laid.wf r (mem_of_mem_filter hr)
  have hsize : recsSize (A.recs.filter Rec.live) ≤ 126 := (usedCnt_le (A := A)).trans hdV.laid.size
  have hcopy0 : Copying hd (recsSlots (A.recs.filter Rec.live)) 0 P := by
    refine ⟨hdP.header, Nat.zero_le _, Or.inl hsP, fun i hi => ?_⟩
    exact hdP.laid.free_of_ge (by simp) hi
  have hpicks : picks (V.withState pageCandidate) (List.range 126) =
      (recsSlots (A.recs.filter Rec.live)).drop 0 := picks_eq hdV1.laid hclean
  have hcnt1 : (env1.pages p).entryCntUsed = 0 := by
    rw [htouch1.pages_of_ne hne.symm, hcP]
    rfl
  obtain ⟨env2, P2, hrun2, htouch2, hmP2, hcopy2, hslots2, hcnt2⟩ := copyLoop_run hrom hgeo1 hv hp
    hmV1.toShows hmP1 hcopy0 hsP hne (fun i hi => mem_range.mp hi) hpicks
    (by rw [hcnt1]; decide) (by rwa [length_recsSlots])
  have hgeo2 := htouch2.geometry hgeo1
  have hmV2 := htouch2.mirrors hne hmV1
  have hP2 : PageRep env2 p ⟨hd, A.recs.filter Rec.live⟩ := by
    refine ⟨⟨P2, hmP2, ⟨hcopy2.header, hwf, hsize, fun i _ => by rw [hslots2], fun i hi => ?_⟩,
      hslots2⟩, ?_⟩
    · have hall := getD_states_cutRecs hfresh le_rfl (recsSize (A.recs.filter Rec.live)) i
      rw [cutRecs_all] at hall
      rw [hcopy2.states i hi, length_recsSlots, hall]
    · have hcnt : APage.usedCnt ⟨hd, A.recs.filter Rec.live⟩ =
          recsSize (A.recs.filter Rec.live) := by
        simp [APage.usedCnt, filter_filter]
      rw [hcnt2, hcnt1, length_recsSlots, hcnt]
      omega
  -- the erase
  let env3 := (env2.did (.erase (env2.addr v) 4096)).setPage v (pageClear (env2.pages v))
  have herase := nvdsFlashErase_ok hrom hgeo2 hv
  have hblank := holds_erase env2.flash (env2.addr v)
  have htouch3 : Touch v (fun Q =>
      Draws Q (A.withState pageCandidate) ∨ Q = .blank)
      env2 env3 := by
    have hdid : Touch v (fun Q =>
        Draws Q (A.withState pageCandidate) ∨ Q = .blank)
        env2 (env2.did (.erase (env2.addr v) 4096)) :=
      touch_did ⟨le_rfl, le_rfl⟩ trivial (Or.inl hdV1) hmV2.holds (Or.inr rfl) hblank
    exact hdid.trans (touch_setPage _ (Or.inr rfl) hblank)
  refine ⟨env1, env2, env3, ?_, htouch1.mono ?_, htouch2.mono ?_, htouch3,
    ⟨_, hmV1.holds, hdV1⟩, hP2, ?_, ?_, hblank⟩
  · rw [evacuate, modify_bind, ← hlists, bind_ok hrun1, entryCountPerPage,
      bind_ok hrun2, get_bind, hmV2.base, bind_ok herase]
    rfl
  · rintro Q (rfl | rfl)
    · exact Or.inl hdV
    · exact Or.inr hdV1
  · rintro Q ⟨m, hQ⟩
    obtain ⟨q, hq, hd⟩ := hQ.draws hwf hfresh hsize
    exact ⟨m, q, hq, hd⟩
  · simp [env3, FlashEnv.setPage, pageClear, PageHeader.blank]
  · simp [env3, FlashEnv.setPage, pageClear, hmV2.base]

omit hrom in
/-- The store after the three steps. -/
theorem Rep.evacuated {env env0 env1 env2 env3 : FlashEnv} (hrep : Rep n env S) (hv : v ∈ S.used)
    (hp : p ∈ S.used) (hlists : env0 =
      { env with pageUsed := env.pageUsed.erase v, pageFree := env.pageFree ++ [v] })
    {𝒬₁ 𝒬₂ 𝒬₃ : SlotPage → Prop} (htouch1 : Touch v 𝒬₁ env0 env1) (htouch2 : Touch p 𝒬₂ env1 env2)
    (htouch3 : Touch v 𝒬₃ env2 env3)
    (hP2 : PageRep env2 p { S.page p with recs := (S.page v).recs.filter Rec.live })
    (hv3 : FreeRep env3 v) : Rep n env3 (S.evacuated v p) := by
  have hnd := (nodup_append.mp hrep.nodup).1
  have hframe : env3.pageUsed = env0.pageUsed ∧ env3.pageFree = env0.pageFree := by
    obtain ⟨q, d, rfl⟩ := htouch3.frame
    obtain ⟨q, d, rfl⟩ := htouch2.frame
    obtain ⟨q, d, rfl⟩ := htouch1.frame
    exact ⟨rfl, rfl⟩
  have hgeo0 : Geometry env0 n := by
    rw [hlists]
    exact ⟨hrep.geo.length_eq, hrep.geo.on_device⟩
  have hperm := S.perm_evacuated hv p
  refine ⟨htouch3.geometry (htouch2.geometry (htouch1.geometry hgeo0)), ?_, ?_,
    hperm.nodup_iff.mpr hrep.nodup, ?_, ?_, ?_⟩
  · rw [hframe.1, hlists]
    show env.pageUsed.erase v = S.used.erase v
    rw [hrep.used_eq]
  · rw [hframe.2, hlists]
    show env.pageFree ++ [v] = S.free ++ [v]
    rw [hrep.free_eq]
  · intro k
    rw [hperm.mem_iff, hrep.mem_iff]
  · intro k hk
    have hkused : k ∈ S.used := mem_of_mem_erase hk
    have hkv : k ≠ v := by
      rintro rfl
      exact hnd.not_mem_erase hk
    simp only [Store.evacuated]
    by_cases hkp : k = p
    · subst hkp
      rw [update_self]
      exact hP2.of_touch htouch3 hkv
    · have h0 : PageRep env0 k (S.page k) := by
        rw [hlists]
        exact (hrep.pages k hkused).congr rfl rfl rfl
      rw [update_of_ne hkp]
      exact ((h0.of_touch htouch1 hkv).of_touch htouch2 hkp).of_touch htouch3 hkv
  · intro k hk
    rcases mem_append.mp hk with hk | hk
    · have hdisj := (nodup_append.mp hrep.nodup).2.2
      have hkv : k ≠ v := fun e => hdisj v hv k hk e.symm
      have hkp : k ≠ p := fun e => hdisj p hp k hk e.symm
      have h0 : FreeRep env0 k := by
        rw [hlists]
        exact (hrep.frees k hk).congr rfl rfl rfl
      exact ((h0.of_touch htouch1 hkv).of_touch htouch2 hkp).of_touch htouch3 hkv
    · rw [mem_singleton.mp hk]
      exact hv3

/-- **Moving the records in use of a page to the new one.** -/
theorem does_evacuate (hv : v ∈ S.used) (hp : p ∈ S.used) (hne : v ≠ p)
    (hs : (S.page v).searched = true) (hclean : ∀ r ∈ (S.page v).recs, r.Clean)
    (hempty : (S.page p).recs = []) :
    Does n (evacuate rom v p) S (.ok ()) (S.evacuated v p) id (S.Evacuating v p) := by
  intro env hrep
  have hnd := (nodup_append.mp hrep.nodup).1
  have hpage : S.page p = ⟨(S.page p).header, []⟩ := by rw [← hempty]
  let env0 : FlashEnv :=
    { env with pageUsed := env.pageUsed.erase v, pageFree := env.pageFree ++ [v] }
  have hrepP := hrep.pages p hp
  rw [hpage] at hrepP
  have h0 : Depicts n env0.baseAddr env0.flash S.shot := hrep.depicts
  obtain ⟨env1, env2, env3, hrun, htouch1, htouch2, htouch3, ⟨V, hV, hdV⟩, hP2, hv3⟩ :=
    evacuate_run hrom (show env0 = _ from rfl) ⟨hrep.geo.length_eq, hrep.geo.on_device⟩
      (hrep.used_lt hv) (hrep.used_lt hp) hne
      (show PageRep env0 v _ from (hrep.pages v hv).congr rfl rfl rfl) hs hclean
      (show PageRep env0 p _ from hrepP.congr rfl rfl rfl)
  -- what the flash holds between the steps
  have hmark : (S.mark v pageCandidate).shot = update S.shot v
      (some ((S.page v).withState pageCandidate)) :=
    S.shot_setPage hv _
  have h1 : Depicts n env1.baseAddr env1.flash (S.mark v pageCandidate).shot := by
    rw [hmark]
    exact h0.of_touch htouch1 hV hdV
  have h2 : Depicts n env2.baseAddr env2.flash
      (update (S.mark v pageCandidate).shot p
        (some ⟨(S.page p).header, (S.page v).recs.filter Rec.live⟩)) := by
    obtain ⟨⟨P, hm, hd, -⟩, -⟩ := hP2
    exact h1.of_touch htouch2 hm.holds hd
  have hpic1 : ∀ Q, Draws Q (S.page v) ∨ Draws Q
      ((S.page v).withState pageCandidate) →
      ∃ o, (o = S.shot v ∨ o = (S.mark v pageCandidate).shot v) ∧ Pictures Q o := by
    rintro Q (hQ | hQ)
    · exact ⟨_, Or.inl rfl, by rw [Store.shot, if_pos hv]; exact hQ⟩
    · exact ⟨_, Or.inr rfl, by rw [hmark, update_self]; exact hQ⟩
  have hpic2 : ∀ Q, (∃ m q, m ≤ q ∧
      Draws Q ⟨(S.page p).header, cutRecs m q ((S.page v).recs.filter Rec.live)⟩) →
      ∃ o, (∃ m q, m ≤ q ∧ o = some { S.page p with
        recs := cutRecs m q ((S.page v).recs.filter Rec.live) }) ∧ Pictures Q o := by
    rintro Q ⟨m, q, hmq, hQ⟩
    exact ⟨_, ⟨m, q, hmq, rfl⟩, hQ⟩
  have hpic3 : ∀ Q, Draws Q ((S.page v).withState pageCandidate) ∨ Q = .blank →
      ∃ o, (o = (S.mark v pageCandidate).shot v ∨ o = none) ∧ Pictures Q o := by
    rintro Q (hQ | rfl)
    · exact ⟨_, Or.inl rfl, by rw [hmark, update_self]; exact hQ⟩
    · exact ⟨none, Or.inr rfl, rfl⟩
  -- nothing copied yet, and everything copied, are two of the shots of the copy loop
  have hnone : update (S.mark v pageCandidate).shot p
      (some { S.page p with recs := cutRecs 0 0 ((S.page v).recs.filter Rec.live) }) =
      (S.mark v pageCandidate).shot := by
    have hcut : cutRecs 0 0 ((S.page v).recs.filter Rec.live) = (S.page p).recs := by
      rw [hempty]
      cases (S.page v).recs.filter Rec.live <;> rfl
    have hshot : (S.mark v pageCandidate).shot p = some (S.page p) := by
      rw [hmark, update_of_ne hne.symm, Store.shot, if_pos hp]
    rw [hcut, ← hshot, update_eq_self]
  refine ⟨env3, hrun, hrep.evacuated hv hp rfl htouch1 htouch2 htouch3 hP2 hv3, ?_, ?_, ?_⟩
  · have hgoes0 : Goes n (S.Evacuating v p) env env0 :=
      goes_of_dev_eq rfl rfl rfl (Or.inl rfl) hrep.depicts
    refine hgoes0.trans (((htouch1.goes (hrep.used_lt hv) h0 hpic1).mono ?_).trans
      (((htouch2.goes (hrep.used_lt hp) h1 hpic2).mono ?_).trans
        ((htouch3.goes (hrep.used_lt hv) h2 hpic3).mono ?_)))
    · rintro T ⟨o, rfl | rfl, rfl⟩
      · exact Or.inl (update_eq_self _ _)
      · refine Or.inr (Or.inl ⟨0, 0, le_rfl, ?_⟩)
        rw [hnone, hmark, update_self]
    · rintro T ⟨o, ⟨m, q, hmq, rfl⟩, rfl⟩
      exact Or.inr (Or.inl ⟨m, q, hmq, rfl⟩)
    · rintro T ⟨o, rfl | rfl, rfl⟩
      · refine Or.inr (Or.inl ⟨recsSize ((S.page v).recs.filter Rec.live), _, le_rfl, ?_⟩)
        rw [cutRecs_all, update_eq_self_iff, update_of_ne hne]
      · exact Or.inr (Or.inr (S.shot_evacuated hnd hp hne).symm)
  · obtain ⟨q, d, rfl⟩ := htouch3.frame
    obtain ⟨q, d, rfl⟩ := htouch2.frame
    obtain ⟨q, d, rfl⟩ := htouch1.frame
    rfl
  · obtain ⟨q, d, rfl⟩ := htouch3.frame
    obtain ⟨q, d, rfl⟩ := htouch2.frame
    obtain ⟨q, d, rfl⟩ := htouch1.frame
    rfl

/-- **Requesting a page.** The records are only looked at when the last free page is taken. -/
theorem does_newPageRequest (hseq : seq < 2 ^ 32)
    (hgc : S.free.length = 1 → ∀ k ∈ S.used, (S.page k).searched = true ∧
      ∀ r ∈ (S.page k).recs, r.Clean) :
    Does n (newPageRequest rom seq) S (.ok ((S.turned seq).map Prod.fst))
      (((S.turned seq).map Prod.snd).getD S) id (S.Turning seq) := by
  have hstart : S.Turning seq S.shot := Or.inl rfl
  have hthrow : ∀ x : NvdsM ℕ, (∀ env, Rep n env S → x env = some (.error .fail, env)) →
      Does n (do let r ← NvdsM.attempt x; pure r.toOption) S (.ok none) S id (S.Turning seq) :=
    fun x hx => (does_of_eq hx hstart).attempt.seq (does_pure none hstart)
  rw [newPageRequest]
  rcases hfree : S.free with _ | ⟨p, _ | ⟨q, rest⟩⟩
  · -- no page is free
    rw [Store.turned, hfree]
    refine hthrow _ fun env hrep => ?_
    rw [newPage, get_bind, hrep.free_eq, hfree]
    rfl
  · -- the last free page
    have hturn : ∀ T, T = S.shot ∨ T = (S.opened p seq).shot → S.Turning seq T := by
      rintro T (rfl | rfl)
      · exact hstart
      · exact Or.inr ⟨p, [], hfree, Or.inl rfl⟩
    rw [Store.turned, hfree]
    rcases hvictim : S.victim with _ | v
    · refine hthrow _ fun env hrep => ?_
      rw [newPage, get_bind, hrep.free_eq, hfree]
      rw [pickVictim_eq hrep, hvictim]
      rfl
    · have hv := (S.victim_spec hvictim).1
      obtain ⟨hs, hclean⟩ := hgc (by rw [hfree]; rfl) v hv
      intro env hrep
      have hne : v ≠ p := by
        rintro rfl
        exact (nodup_append.mp hrep.nodup).2.2 v hv v (by simp [hfree]) rfl
      have hpage : (S.opened p seq).page v = S.page v := update_of_ne hne _ _
      have hopen := (@does_openPage rom hrom n S p seq _ hfree hseq).mono hturn
      have hevac : Does n (evacuate rom v p) (S.opened p seq) (.ok ())
          ((S.opened p seq).evacuated v p) id (S.Turning seq) := by
        refine (does_evacuate hrom ?_ ?_ hne ?_ ?_ ?_).mono ?_
        · simp [Store.opened, hv]
        · simp [Store.opened]
        · rw [hpage]
          exact hs
        · rw [hpage]
          exact hclean
        · simp [Store.opened]
        · intro T hT
          exact Or.inr ⟨p, [], hfree, Or.inr ⟨v, rfl, hvictim, hT⟩⟩
      have hret : Does n (pure p : NvdsM ℕ) ((S.opened p seq).evacuated v p) (.ok p)
          ((S.opened p seq).evacuated v p) id (S.Turning seq) :=
        does_pure p (Or.inr ⟨p, [], hfree, Or.inr ⟨v, rfl, hvictim, Or.inr (Or.inr rfl)⟩⟩)
      have hnew : newPage rom seq env =
          (do openPage rom p seq; evacuate rom v p; pure p : NvdsM ℕ) env := by
        rw [newPage, get_bind, hrep.free_eq, hfree]
        rw [pickVictim_eq hrep, hvictim]
      have hall : Does n (do openPage rom p seq; evacuate rom v p; pure p : NvdsM ℕ) S (.ok p)
          ((S.opened p seq).evacuated v p) id (S.Turning seq) := hopen.seq (hevac.seq hret)
      obtain ⟨env', hrun, h'⟩ := hall env hrep
      refine ⟨env', ?_, h'⟩
      rw [bind_ok (attempt_eq (hnew.trans hrun))]
      rfl
  · -- one of several free pages
    have hturn : ∀ T, T = S.shot ∨ T = (S.opened p seq).shot → S.Turning seq T := by
      rintro T (rfl | rfl)
      · exact hstart
      · exact Or.inr ⟨p, q :: rest, hfree, Or.inl rfl⟩
    rw [Store.turned, hfree]
    intro env hrep
    have hopen := (@does_openPage rom hrom n S p seq _ hfree hseq).mono hturn
    have hret : Does n (pure p : NvdsM ℕ) (S.opened p seq) (.ok p) (S.opened p seq) id
        (S.Turning seq) := does_pure p (hturn _ (Or.inr rfl))
    have hnew : newPage rom seq env = (do openPage rom p seq; pure p : NvdsM ℕ) env := by
      rw [newPage, get_bind, hrep.free_eq, hfree]
    have hall : Does n (do openPage rom p seq; pure p : NvdsM ℕ) S (.ok p) (S.opened p seq) id
        (S.Turning seq) := hopen.seq hret
    obtain ⟨env', hrun, h'⟩ := hall env hrep
    refine ⟨env', ?_, h'⟩
    rw [bind_ok (attempt_eq (hnew.trans hrun))]
    rfl

end Turn

end Gd32.Nvds
