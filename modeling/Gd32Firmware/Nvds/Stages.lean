import Gd32Firmware.Nvds.Values

/-!
# What holds at every moment of an operation

An operation on a key works on a store that is *tidy* (`Nvds.Tidy`): its pages have sound
headers, and its records in use are the ones of the other keys and the ones of the key itself.
Between two calls the flash holds a shot that need not be tidy. What is known of it
(`Nvds.Stage`) depends on two things that can go wrong when the power is cut there: a record
can have been given up in part only, and a page can have been marked a candidate without its
records in use having been copied. A shot where neither is the case is *settled*
(`Nvds.Settled`).
-/

namespace Gd32

open List Function Multiset

variable {k j : ℕ} {X Y : List Cell} {c : Cell} {r : Rec} {A : APage}

namespace Nvds

open NorFlash LittleEndian

/-! ### Definitions -/

/-- The header of a page is one that `new_page_request` and the changes of its state leave. -/
def APage.Sound (A : APage) : Prop :=
  ∃ state seq, A.header = pageHeader state seq ∧ seq < 2 ^ 32 ∧
    (state = pageActive ∨ state = pageFull ∨ state = pageCandidate)

/-- **Nothing has been left half done**: a record that is not in use has been given up as a
whole, and the records in use of a page that is not searched are found on one that is. -/
structure Settled (n : ℕ) (T : Shot) : Prop where
  whole : ∀ k < n, ∀ A, T k = some A → ∀ r ∈ A.recs, r.live = false → r = r.dead
  copied : ∀ k < n, ∀ A, T k = some A → A.searched = false → recsLive A.recs ≤ liveOf n T

/-- The records of a key, at a moment of an operation on it: a value out of `W`, or fragments that
are not counted. -/
def Mine (W : List UInt8 → Prop) (ns : ℕ) (key : CString) (B : Multiset Body) : Prop :=
  (∃ v, W v ∧ Keeps ns key v B) ∨ ∀ b ∈ B, Entry.type b.1 = .bulk

section Defs

variable (n ns : ℕ) (key : CString) (L : Multiset Body) (W : List UInt8 → Prop)

/-- What is known of the flash at every moment of an operation on a key, `L` being the records
in use of the other keys and `W` the values the key can have. -/
structure Stage (T : Shot) : Prop where
  sound : ∀ k < n, ∀ A, T k = some A → A.Sound
  ne : ∃ k < n, T k ≠ none
  rest : Settled n T →
    (liveOf n T).filter (fun b => ¬elementHit ns key .any b.1 = true) = L
  mine : Settled n T → Mine W ns key (own n T ns key)
  nodup : Settled n T → (liveOf n T).Nodup
  calm : Settled n T → ∀ j < n, T j = none → ∀ k < n, ∀ A, T k = some A →
    A.searched = true ∧
      ∀ r ∈ A.recs, r.Clean ∨ (r.live = true ∧ elementHit ns key .any r.hdr = true)

/-- A store between two steps of an operation on a key: `L` are the records in use of the other
keys and `B` the ones of the key. A page is free, unless `cut` holds, and then all used pages are
searched and their records are clean; if `torn` holds, those of the key need not be. -/
structure Tidy (cut torn : Prop) (B : Multiset Body) (S : Store) : Prop where
  sound : ∀ k ∈ S.used, (S.page k).Sound
  wf : ∀ k ∈ S.used, ∀ r ∈ (S.page k).recs, r.Wf
  size : ∀ k ∈ S.used, recsSize (S.page k).recs ≤ 126
  ne : S.used ≠ []
  nodup_pages : (S.used ++ S.free).Nodup
  mem_iff : ∀ k, k ∈ S.used ++ S.free ↔ k < n
  spare : S.free = [] → cut
  live : liveOf n S.shot = L + B
  nodup : (L + B).Nodup
  others : ∀ b ∈ L, elementHit ns key .any b.1 = false
  hits : ∀ b ∈ B, elementHit ns key .any b.1 = true
  calm : S.free ≠ [] → ∀ k ∈ S.used, (S.page k).searched = true ∧
    ∀ r ∈ (S.page k).recs, r.Clean ∨
      (torn ∧ r.live = true ∧ elementHit ns key .any r.hdr = true)

end Defs

/-! ### The records in use after a change -/

section Live

variable {n : ℕ} {S : Store}

theorem liveOf_setPage (hk : k ∈ S.used) (hkn : k < n) (A : APage) :
    liveOf n (S.setPage k A).shot + pageLive (some (S.page k)) =
      liveOf n S.shot + pageLive (some A) := by
  have h := liveOf_update hkn S.shot (some A)
  rwa [← S.shot_setPage hk A, show S.shot k = some (S.page k) by rw [Store.shot, if_pos hk]] at h

/-- Giving up slots of a cell in use. -/
theorem liveOf_kill (h : S.cells = X ++ c :: Y)
    (hlive : c.record.live = true) (hlt : ∀ k ∈ S.used, k < n) (hj : 0 < j) :
    liveOf n S.shot = c.record.body ::ₘ liveOf n (S.kill c j).shot := by
  obtain ⟨l₁, l₂, pre, post, hused, hs, hrecs, hidx, -, -⟩ := split_cells h
  have hk : c.page ∈ S.used := by
    rw [hused]
    simp
  have hset := liveOf_setPage hk (hlt _ hk)
    { S.page c.page with recs := giveUpAt c.idx j (S.page c.page).recs }
  have hold : pageLive (some (S.page c.page)) =
      {c.record.body} + (recsLive pre + recsLive post) := by
    rw [pageLive, if_pos hs, hrecs, recsLive_append, recsLive_cons, if_pos hlive]
    abel
  have hnew : pageLive (some { S.page c.page with
      recs := giveUpAt c.idx j (S.page c.page).recs }) = recsLive pre + recsLive post := by
    rw [pageLive, if_pos (by exact hs), hrecs, hidx, giveUpAt_append, recsLive_append,
      recsLive_cons, Rec.live_giveUp _ hj]
    simp
  rw [hold, hnew, ← add_assoc] at hset
  rw [← singleton_add, add_comm]
  exact (add_right_cancel hset).symm

/-- Writing a record. -/
theorem liveOf_push (hk : k ∈ S.used) (hkn : k < n) (hs : (S.page k).searched = true) (hr : r.live = true) :
    liveOf n (S.push k r).shot = r.body ::ₘ liveOf n S.shot := by
  have hset := liveOf_setPage hk hkn { S.page k with recs := (S.page k).recs ++ [r] }
  have hnew : pageLive (some { S.page k with recs := (S.page k).recs ++ [r] }) =
      {r.body} + pageLive (some (S.page k)) := by
    rw [pageLive, pageLive, if_pos (by exact hs), if_pos hs, recsLive_append, recsLive_cons,
      if_pos hr, recsLive_nil]
    abel
  rw [hnew, ← add_assoc] at hset
  rw [← singleton_add, add_comm]
  exact add_right_cancel hset

/-- Marking a page in a state in which it is searched as before. -/
theorem liveOf_mark (hk : k ∈ S.used) (hkn : k < n) (hs : (S.page k).searched = true)
    {state : ℕ} (hs' : ((S.page k).withState state).searched = true) :
    liveOf n (S.mark k state).shot = liveOf n S.shot := by
  have hset := liveOf_setPage hk hkn ((S.page k).withState state)
  rw [pageLive, pageLive, if_pos hs, if_pos hs'] at hset
  exact add_right_cancel hset

/-- Setting a page up. -/
theorem liveOf_opened {p seq : ℕ} (hp : p ∉ S.used) (hpn : p < n) :
    liveOf n (S.opened p seq).shot = liveOf n S.shot := by
  have h := liveOf_update hpn S.shot (some ⟨pageHeader pageActive seq, []⟩)
  rw [← S.shot_opened p seq, show S.shot p = none by rw [Store.shot, if_neg hp]] at h
  have hz : pageLive (some ⟨pageHeader pageActive seq, []⟩) = 0 := by
    rw [pageLive]
    split <;> rfl
  rw [hz, pageLive, add_zero, add_zero] at h
  exact h

/-- A page marked a candidate is not searched. -/
theorem searched_candidate (A : APage) : (A.withState pageCandidate).searched = false := by
  have h : (decide (pageCandidate = pageActive) || decide (pageCandidate = pageFull)) = false := by
    decide
  exact h

theorem pageLive_candidate (A : APage) : pageLive (some (A.withState pageCandidate)) = 0 := by
  rfl

/-- While the records in use of page `v` are copied to the empty page `p`: `O` are the records in
use elsewhere. -/
theorem liveOf_copying {v p : ℕ} (hv : v ∈ S.used) (hp : p ∈ S.used) (hvn : v < n) (hpn : p < n)
    (hne : v ≠ p) (hs : (S.page v).searched = true) (hsp : (S.page p).searched = true)
    (hempty : (S.page p).recs = []) (rs : List Rec) :
    ∃ O, liveOf n S.shot = O + recsLive (S.page v).recs ∧
      liveOf n (update (S.mark v pageCandidate).shot p
        (some { S.page p with recs := rs })) = O + recsLive rs := by
  have h1 := liveOf_setPage hv hvn ((S.page v).withState pageCandidate)
  rw [pageLive_candidate, add_zero, pageLive, if_pos hs] at h1
  have h2 := liveOf_update hpn (S.mark v pageCandidate).shot (some { S.page p with recs := rs })
  have hshot : (S.mark v pageCandidate).shot p = some (S.page p) := by
    rw [Store.mark, S.shot_setPage hv, update_of_ne hne.symm, Store.shot, if_pos hp]
  rw [hshot, pageLive, pageLive, if_pos hsp, if_pos (by exact hsp), hempty, recsLive_nil,
    add_zero] at h2
  exact ⟨_, h1.symm, h2⟩

theorem liveOf_evacuated {v p : ℕ} (hnd : S.used.Nodup) (hv : v ∈ S.used) (hp : p ∈ S.used)
    (hvn : v < n) (hpn : p < n) (hne : v ≠ p) (hs : (S.page v).searched = true)
    (hsp : (S.page p).searched = true) (hempty : (S.page p).recs = []) :
    liveOf n (S.evacuated v p).shot = liveOf n S.shot := by
  obtain ⟨O, hO, hcopy⟩ := liveOf_copying hv hp hvn hpn hne hs hsp hempty
    ((S.page v).recs.filter Rec.live)
  rw [S.shot_evacuated hnd hp hne, hO, ← recsLive_filter, ← hcopy]
  have h := liveOf_update hvn (update (S.mark v pageCandidate).shot p
    (some { S.page p with recs := (S.page v).recs.filter Rec.live })) none
  have hshot : update (S.mark v pageCandidate).shot p
      (some { S.page p with recs := (S.page v).recs.filter Rec.live }) v =
      some ((S.page v).withState pageCandidate) := by
    rw [update_of_ne hne, Store.mark, S.shot_setPage hv, update_self]
  rw [hshot, pageLive_candidate, add_zero, pageLive, add_zero] at h
  exact h

/-- If the records of the page given up are all in use elsewhere, they have all been copied. -/
theorem recsLive_cutRecs {O : Multiset Body} {rs : List Rec} (hrs : ∀ r ∈ rs, r.live = true)
    (hnd : (O + recsLive rs).Nodup) {m q : ℕ}
    (hle : recsLive rs ≤ O + recsLive (cutRecs m q rs)) :
    recsLive (cutRecs m q rs) = recsLive rs := by
  have hcard : (recsLive rs).card = rs.length := by
    rw [recsLive, List.filter_eq_self.mpr hrs]
    simp
  have hcard' : (recsLive (cutRecs m q rs)).card ≤ rs.length := by
    rw [recsLive]
    simp only [coe_card, length_map]
    exact (length_filter_le _ _).trans (length_cutRecs_le m q rs)
  have hdisj := (nodup_add.mp hnd).2.2
  -- the records in use elsewhere do not count
  have hsub : recsLive rs ≤ recsLive (cutRecs m q rs) := by
    rw [le_iff_count]
    intro b
    have hb := le_iff_count.mp hle b
    rw [count_add] at hb
    by_cases hmem : b ∈ recsLive rs
    · have hO : b ∉ O := fun h => disjoint_left.mp hdisj h hmem
      rw [count_eq_zero_of_notMem hO] at hb
      omega
    · rw [count_eq_zero_of_notMem hmem]
      exact Nat.zero_le _
  exact (eq_of_le_of_card_le hsub (by omega)).symm

end Live

/-! ### Stages and tidy stores -/

theorem filter_others {ns : ℕ} {key : CString} {L B : Multiset Body}
    (hL : ∀ b ∈ L, elementHit ns key .any b.1 = false)
    (hB : ∀ b ∈ B, elementHit ns key .any b.1 = true) :
    (L + B).filter (fun b => ¬elementHit ns key .any b.1 = true) = L := by
  rw [Multiset.filter_add, Multiset.filter_eq_self.mpr, Multiset.filter_eq_nil.mpr, add_zero]
  · intro b hb h
    exact h (hB b hb)
  · intro b hb
    simp [hL b hb]

theorem filter_own {ns : ℕ} {key : CString} {L B : Multiset Body}
    (hL : ∀ b ∈ L, elementHit ns key .any b.1 = false)
    (hB : ∀ b ∈ B, elementHit ns key .any b.1 = true) :
    (L + B).filter (fun b => elementHit ns key .any b.1 = true) = B := by
  rw [Multiset.filter_add, Multiset.filter_eq_self.mpr hB, Multiset.filter_eq_nil.mpr, zero_add]
  intro b hb
  simp [hL b hb]

theorem APage.Sound.withState (h : A.Sound) {state : ℕ}
    (hstate : state = pageActive ∨ state = pageFull ∨ state = pageCandidate) :
    (A.withState state).Sound := by
  obtain ⟨st, seq, hd, hseq, -⟩ := h
  refine ⟨state, seq, ?_, hseq, hstate⟩
  rw [APage.withState, hd]
  rfl

section Tidy

variable {n ns : ℕ} {key : CString} {L B B' : Multiset Body} {W : List UInt8 → Prop}
  {cut torn : Prop} {S : Store}

namespace Tidy

theorem used_lt (h : Tidy n ns key L cut torn B S) (hk : k ∈ S.used) : k < n :=
  (h.mem_iff k).mp (by simp [hk])

theorem free_lt (h : Tidy n ns key L cut torn B S) (hk : k ∈ S.free) : k < n :=
  (h.mem_iff k).mp (by simp [hk])

theorem nodup_used (h : Tidy n ns key L cut torn B S) : S.used.Nodup :=
  (nodup_append.mp h.nodup_pages).1

theorem free_notMem (h : Tidy n ns key L cut torn B S) (hk : k ∈ S.free) : k ∉ S.used :=
  fun hused => (nodup_append.mp h.nodup_pages).2.2 k hused k hk rfl

/-- The records of the key. -/
theorem own_eq (h : Tidy n ns key L cut torn B S) : own n S.shot ns key = B := by
  rw [own, h.live]
  exact filter_own h.others h.hits

/-- A cell in use of the key is among its records. -/
theorem mem_of_cell (h : Tidy n ns key L cut torn B S) (hc : c ∈ S.cells)
    (hlive : c.record.live = true) (hhit : elementHit ns key .any c.record.hdr = true) :
    c.record.body ∈ B := by
  rw [← h.own_eq, own, Multiset.mem_filter]
  exact ⟨body_mem_liveOf h.nodup_used (fun _ => h.used_lt) hc hlive, hhit⟩

/-- **One used page is replaced.** -/
theorem setPage (h : Tidy n ns key L cut torn B S) (hk : k ∈ S.used)
    (hsound : A.Sound) (hwf : ∀ r ∈ A.recs, r.Wf) (hsize : recsSize A.recs ≤ 126)
    (hsearched : A.searched = (S.page k).searched)
    (hlive : liveOf n (S.setPage k A).shot = L + B') (hnodup : (L + B').Nodup)
    (hhits : ∀ b ∈ B', elementHit ns key .any b.1 = true)
    (hrecs : S.free ≠ [] → ∀ r ∈ A.recs, r.Clean ∨
      (torn ∧ r.live = true ∧ elementHit ns key .any r.hdr = true)) :
    Tidy n ns key L cut torn B' (S.setPage k A) := by
  refine ⟨?_, ?_, ?_, h.ne, h.nodup_pages, h.mem_iff, h.spare, hlive, hnodup, h.others, hhits, ?_⟩
  · intro j hj
    by_cases hjk : j = k
    · rw [hjk, Store.page_setPage]
      exact hsound
    · rw [Store.page_setPage_of_ne S hjk]
      exact h.sound j hj
  · intro j hj
    by_cases hjk : j = k
    · rw [hjk, Store.page_setPage]
      exact hwf
    · rw [Store.page_setPage_of_ne S hjk]
      exact h.wf j hj
  · intro j hj
    by_cases hjk : j = k
    · rw [hjk, Store.page_setPage]
      exact hsize
    · rw [Store.page_setPage_of_ne S hjk]
      exact h.size j hj
  · intro hfree j hj
    by_cases hjk : j = k
    · rw [hjk, Store.page_setPage, hsearched]
      exact ⟨(h.calm hfree k hk).1, hrecs hfree⟩
    · rw [Store.page_setPage_of_ne S hjk]
      exact h.calm hfree j hj

/-- What the flash holds while one used page is changed. -/
theorem stage_setPage (h : Tidy n ns key L cut torn B S) (hk : k ∈ S.used)
    (hsound : A.Sound) (hsearched : A.searched = (S.page k).searched)
    (hlive : liveOf n (S.setPage k A).shot = L + B') (hnodup : (L + B').Nodup)
    (hhits : ∀ b ∈ B', elementHit ns key .any b.1 = true) (hmine : Mine W ns key B')
    (hrecs : S.free ≠ [] → (∀ r ∈ A.recs, r.live = false → r = r.dead) → ∀ r ∈ A.recs, r.Clean ∨
      (r.live = true ∧ elementHit ns key .any r.hdr = true)) :
    Stage n ns key L W (S.setPage k A).shot := by
  have hshot : ∀ j B, (S.setPage k A).shot j = some B → j ∈ S.used ∧ B = (S.setPage k A).page j := by
    intro j B hj
    rw [Store.shot] at hj
    split at hj
    · next hmem => exact ⟨hmem, (Option.some.inj hj).symm⟩
    · exact absurd hj (by simp)
  refine ⟨?_, ?_, fun _ => ?_, fun _ => ?_, fun _ => ?_, ?_⟩
  · intro j _ C hC
    obtain ⟨hj, rfl⟩ := hshot j C hC
    by_cases hjk : j = k
    · rw [hjk, Store.page_setPage]
      exact hsound
    · rw [Store.page_setPage_of_ne S hjk]
      exact h.sound j hj
  · refine ⟨k, h.used_lt hk, ?_⟩
    rw [Store.shot, if_pos (by exact hk)]
    simp
  · rw [hlive, filter_others h.others hhits]
  · rw [own, hlive, filter_own h.others hhits]
    exact hmine
  · rw [hlive]
    exact hnodup
  · intro hset j hj hnone i hi C hC
    have hfree : S.free ≠ [] := by
      have hnot : j ∉ S.used := by
        intro hmem
        rw [Store.shot, if_pos (by exact hmem)] at hnone
        exact absurd hnone (by simp)
      intro hnil
      have := (h.mem_iff j).mpr hj
      rw [hnil, append_nil] at this
      exact hnot this
    obtain ⟨hmem, rfl⟩ := hshot i C hC
    by_cases hik : i = k
    · have hwhole := hset.whole i hi _ hC
      rw [hik, Store.page_setPage] at hwhole ⊢
      exact ⟨hsearched.trans (h.calm hfree k hk).1, hrecs hfree hwhole⟩
    · rw [Store.page_setPage_of_ne S hik]
      refine ⟨(h.calm hfree i hmem).1, fun r hr => ?_⟩
      rcases (h.calm hfree i hmem).2 r hr with hr | hr
      · exact Or.inl hr
      · exact Or.inr hr.2

/-- What the flash holds between two steps. -/
theorem stage (h : Tidy n ns key L cut torn B S) (hmine : Mine W ns key B) :
    Stage n ns key L W S.shot := by
  obtain ⟨k, hk⟩ := exists_mem_of_ne_nil _ h.ne
  have hself := S.setPage_self k
  have := h.stage_setPage hk (h.sound k hk) rfl (by rw [hself]; exact h.live) h.nodup h.hits hmine
    (by
      intro hfree _ r hr
      rcases (h.calm hfree k hk).2 r hr with hr | hr
      · exact Or.inl hr
      · exact Or.inr hr.2)
  rwa [hself] at this

end Tidy

/-! ### The changes, on a tidy store -/

section Change

variable {rom : NvdsRom} (hrom : rom.Reliable)

/-- The page after slots of a cell in use have been given up. -/
theorem Tidy.kill_page (h : Tidy n ns key L cut torn B S)
    (hcells : S.cells = X ++ c :: Y) (hlive : c.record.live = true)
    (hhit : elementHit ns key .any c.record.hdr = true) (hj : 0 < j) :
    c.page ∈ S.used ∧
      (APage.Sound { S.page c.page with recs := giveUpAt c.idx j (S.page c.page).recs }) ∧
      liveOf n (S.kill c j).shot = L + B.erase c.record.body ∧
      (L + B.erase c.record.body).Nodup ∧
      (∀ b ∈ B.erase c.record.body, elementHit ns key .any b.1 = true) := by
  have hc : c ∈ S.cells := by
    rw [hcells]
    simp
  have hk : c.page ∈ S.used := by
    obtain ⟨l₁, l₂, -, -, hused, -⟩ := split_cells hcells
    rw [hused]
    simp
  have hmem := h.mem_of_cell hc hlive hhit
  have hsum : L + B = c.record.body ::ₘ (L + B.erase c.record.body) := by
    rw [← add_cons, cons_erase hmem]
  refine ⟨hk, ?_, ?_, ?_, fun b hb => h.hits b (mem_of_mem_erase hb)⟩
  · obtain ⟨st, seq, hd, h'⟩ := h.sound _ hk
    exact ⟨st, seq, hd, h'⟩
  · have hl := liveOf_kill hcells hlive (fun _ => h.used_lt) hj
    rw [h.live, hsum] at hl
    exact ((Multiset.cons_inj_right _).mp hl).symm
  · have hnd := h.nodup
    rw [hsum, Multiset.nodup_cons] at hnd
    exact hnd.2

/-- The other records of the page are as before. -/
theorem Tidy.killed_recs (h : Tidy n ns key L cut torn B S)
    (hcells : S.cells = X ++ c :: Y) (hfree : S.free ≠ [])
    (hr : r ∈ giveUpAt c.idx j (S.page c.page).recs) :
    r = c.record.giveUp j ∨ r.Clean ∨
      (torn ∧ r.live = true ∧ elementHit ns key .any r.hdr = true) := by
  obtain ⟨l₁, l₂, pre, post, hused, -, hrecs, hidx, -, -⟩ := split_cells hcells
  have hk : c.page ∈ S.used := by
    rw [hused]
    simp
  rw [hidx, hrecs, giveUpAt_append] at hr
  have hcalm := fun hr' => (h.calm hfree c.page hk).2 r (by rw [hrecs]; exact hr')
  rcases mem_append.mp hr with hr | hr
  · exact Or.inr (hcalm (by simp [hr]))
  · rcases mem_cons.mp hr with rfl | hr
    · exact Or.inl rfl
    · exact Or.inr (hcalm (by simp [hr]))

/-- The store after a record in use of the key has been given up. -/
theorem Tidy.kill (h : Tidy n ns key L cut torn B S)
    (hcells : S.cells = X ++ c :: Y) (hlive : c.record.live = true)
    (hhit : elementHit ns key .any c.record.hdr = true) :
    Tidy n ns key L cut torn (B.erase c.record.body) (S.kill c c.record.size) := by
  obtain ⟨l₁, l₂, pre, post, -, -, hrecs, hidx, -, -⟩ := split_cells hcells
  obtain ⟨hk, hsound, hl, hnd, hhits⟩ := h.kill_page hcells hlive hhit c.record.size_pos
  have hwf : ∀ r ∈ (S.page c.page).recs, r.Wf := h.wf c.page hk
  rw [hrecs] at hwf
  refine h.setPage hk hsound ?_ ?_ rfl hl hnd hhits fun hfree r hr => ?_
  · intro r hr
    rw [hidx, hrecs, giveUpAt_append] at hr
    rcases mem_append.mp hr with hr | hr
    · exact hwf r (by simp [hr])
    · rcases mem_cons.mp hr with rfl | hr
      · exact (hwf c.record (by simp)).giveUp le_rfl
      · exact hwf r (by simp [hr])
  · have hsize := h.size c.page hk
    rw [hrecs] at hsize
    rw [hidx, hrecs, giveUpAt_append]
    simpa using hsize
  · rcases h.killed_recs hcells hfree hr with rfl | hr' | hr'
    · rw [(hwf c.record (by simp)).giveUp_size]
      exact Or.inl (Rec.clean_dead _)
    · exact Or.inl hr'
    · exact Or.inr hr'

include hrom

/-- **Giving up a record in use of the key.** -/
theorem Tidy.does_drop (h : Tidy n ns key L cut torn B S)
    (hcells : S.cells = X ++ c :: Y) (hlive : c.record.live = true)
    (hhit : elementHit ns key .any c.record.hdr = true) (hmine : Mine W ns key B)
    (hmine' : Mine W ns key (B.erase c.record.body)) :
    Does n (elementDrop rom c.page c.idx c.record.data.length) S (.ok ())
        (S.kill c c.record.size) id (Stage n ns key L W) ∧
      Tidy n ns key L cut torn (B.erase c.record.body) (S.kill c c.record.size) := by
  obtain ⟨l₁, l₂, pre, post, -, -, hrecs, hidx, -, -⟩ := split_cells hcells
  refine ⟨(does_elementDrop hrom hcells hlive).mono ?_, h.kill hcells hlive hhit⟩
  rintro T ⟨j, hj, rfl⟩
  rcases Nat.eq_zero_or_pos j with rfl | hpos
  · -- nothing given up yet
    have hself : S.kill c 0 = S := by
      rw [Store.kill, hidx, hrecs, giveUpAt_append, Rec.giveUp_zero, ← hrecs]
      exact S.setPage_self _
    rw [hself]
    exact h.stage hmine
  · obtain ⟨hk, hsound, hl, hnd, hhits⟩ := h.kill_page hcells hlive hhit hpos
    refine h.stage_setPage hk hsound rfl hl hnd hhits hmine' fun hfree hwhole r hr => ?_
    rcases h.killed_recs hcells hfree hr with rfl | hr' | hr'
    · exact Or.inl (Or.inr (hwhole _ hr (Rec.live_giveUp _ hpos)))
    · exact Or.inl hr'
    · exact Or.inr hr'.2

omit hrom in
/-- A record of the key is written, or is being written. -/
theorem Tidy.push_page (h : Tidy n ns key L cut torn B S) (hk : k ∈ S.used)
    (hs : (S.page k).searched = true) (hr : r.live = true)
    (hhit : elementHit ns key .any r.hdr = true) (hnot : r.body ∉ B) :
    (APage.Sound { S.page k with recs := (S.page k).recs ++ [r] }) ∧
      liveOf n (S.push k r).shot = L + r.body ::ₘ B ∧ (L + r.body ::ₘ B).Nodup ∧
      ∀ b ∈ r.body ::ₘ B, elementHit ns key .any b.1 = true := by
  refine ⟨?_, ?_, ?_, ?_⟩
  · obtain ⟨st, seq, hd, h'⟩ := h.sound _ hk
    exact ⟨st, seq, hd, h'⟩
  · rw [liveOf_push hk (h.used_lt hk) hs hr, h.live, add_cons]
  · rw [add_cons, Multiset.nodup_cons]
    refine ⟨fun hmem => ?_, h.nodup⟩
    rcases mem_add.mp hmem with hL | hB
    · have := h.others _ hL
      rw [show r.body.1 = r.hdr from rfl, hhit] at this
      exact absurd this (by simp)
    · exact hnot hB
  · intro b hb
    rcases mem_cons.mp hb with rfl | hb
    · exact hhit
    · exact h.hits b hb

omit hrom in
/-- **Writing a record of the key**, by a computation that writes it as `elementWrite` does. -/
theorem Tidy.does_push (h : Tidy n ns key L cut torn B S) (hk : k ∈ S.used)
    (hs : (S.page k).searched = true) {e : Entry} {data : List (List UInt8)}
    (he : e.length = 32) (hdata : ∀ s ∈ data, s.length = 32) (hcnt : data.length = Entry.dataCnt e)
    (hroom : recsSize (S.page k).recs + (1 + data.length) ≤ 126)
    (hhit : elementHit ns key .any e = true) (hnot : (e, data) ∉ B) (hmine : Mine W ns key B)
    (hmine' : Mine W ns key ((e, data) ::ₘ B)) {x : NvdsM Unit}
    (hx : Does n x S (.ok ()) (S.push k (.fresh e data)) id (S.Pushing k e data)) :
    Does n x S (.ok ()) (S.push k (.fresh e data)) id (Stage n ns key L W) ∧
      Tidy n ns key L cut torn ((e, data) ::ₘ B) (S.push k (.fresh e data)) := by
  have hcalm : ∀ r', S.free ≠ [] → ∀ r ∈ (S.page k).recs ++ [r'], r = r' ∨ r.Clean ∨
      (torn ∧ r.live = true ∧ elementHit ns key .any r.hdr = true) := by
    intro r' hfree r hr
    rcases mem_append.mp hr with hr | hr
    · exact Or.inr ((h.calm hfree k hk).2 r hr)
    · exact Or.inl (List.mem_singleton.mp hr)
  refine ⟨hx.mono ?_, ?_⟩
  · rintro T (rfl | ⟨j, hj, -, rfl⟩)
    · exact h.stage hmine
    · have hlive := Rec.live_begun e data hj
      obtain ⟨hsound, hl, hnd, hhits⟩ := h.push_page hk hs hlive hhit hnot
      refine h.stage_setPage hk hsound rfl hl hnd hhits hmine' fun hfree _ r hr => ?_
      rcases hcalm _ hfree r hr with rfl | hr' | hr'
      · exact Or.inr ⟨hlive, hhit⟩
      · exact Or.inl hr'
      · exact Or.inr hr'.2
  · obtain ⟨hsound, hl, hnd, hhits⟩ := h.push_page hk hs (Rec.live_fresh e data) hhit hnot
    refine h.setPage hk hsound ?_ (by simpa using hroom) rfl hl hnd hhits fun hfree r hr => ?_
    · intro r hr
      rcases mem_append.mp hr with hr | hr
      · exact h.wf k hk r hr
      · rw [List.mem_singleton.mp hr]
        exact Rec.wf_fresh he hdata hcnt
    · rcases hcalm _ hfree r hr with rfl | hr'
      · exact Or.inl (Rec.clean_fresh e data)
      · exact hr'

/-- **Marking a page full.** -/
theorem Tidy.does_full (h : Tidy n ns key L cut torn B S) (hk : k ∈ S.used)
    (hs : (S.page k).searched = true) (hmine : Mine W ns key B) :
    Does n (pageStateAlter rom k pageFull) S (.ok ()) (S.mark k pageFull) id (Stage n ns key L W) ∧
      Tidy n ns key L cut torn B (S.mark k pageFull) := by
  have hs' : ((S.page k).withState pageFull).searched = true := by
    simp [APage.searched, APage.withState]
  have htidy : Tidy n ns key L cut torn B (S.mark k pageFull) := by
    refine h.setPage hk ((h.sound k hk).withState (Or.inr (Or.inl rfl))) (h.wf k hk) (h.size k hk)
      (hs'.trans hs.symm) ?_ h.nodup h.hits fun hfree => (h.calm hfree k hk).2
    rw [← h.live]
    exact liveOf_mark hk (h.used_lt hk) hs hs'
  refine ⟨(does_markFull hrom hk hs).mono ?_, htidy⟩
  rintro T (rfl | rfl)
  · exact h.stage hmine
  · exact htidy.stage hmine

end Change

/-! ### Turning to a new page, on a tidy store -/

section Turn

variable {rom : NvdsRom} (hrom : rom.Reliable) {p v seq : ℕ} {rest : List ℕ}

theorem sound_opened (hseq : seq < 2 ^ 32) (rs : List Rec) :
    APage.Sound ⟨pageHeader pageActive seq, rs⟩ := ⟨_, _, rfl, hseq, Or.inl rfl⟩

theorem searched_opened (seq : ℕ) (rs : List Rec) :
    APage.searched ⟨pageHeader pageActive seq, rs⟩ = true := by
  simp [APage.searched, pageHeader]

theorem page_opened_of_ne (S : Store) (hk : k ≠ p) :
    (S.opened p seq).page k = S.page k := update_of_ne hk _ _

@[simp] theorem page_opened_self (S : Store) :
    (S.opened p seq).page p = ⟨pageHeader pageActive seq, []⟩ := update_self _ _ _

/-- When a page is free, the records of a tidy store are clean. -/
theorem Tidy.clean (h : Tidy n ns key L cut False B S) (hfree : S.free ≠ [])
    (hk : k ∈ S.used) : (S.page k).searched = true ∧ ∀ r ∈ (S.page k).recs, r.Clean := by
  refine ⟨(h.calm hfree k hk).1, fun r hr => ?_⟩
  rcases (h.calm hfree k hk).2 r hr with hr | hr
  · exact hr
  · exact hr.1.elim

theorem Tidy.opened (h : Tidy n ns key L cut False B S) (hfree : S.free = p :: rest)
    (hseq : seq < 2 ^ 32) : Tidy n ns key L (rest = []) False B (S.opened p seq) := by
  have hp : p ∈ S.free := by
    rw [hfree]
    simp
  have hperm := S.perm_opened hfree seq
  have hcases : ∀ k ∈ (S.opened p seq).used, (k ∈ S.used ∧ k ≠ p) ∨ k = p := by
    intro k hk
    rcases mem_append.mp hk with hk | hk
    · exact Or.inl ⟨hk, ne_of_mem_of_not_mem hk (h.free_notMem hp)⟩
    · exact Or.inr (List.mem_singleton.mp hk)
  refine ⟨?_, ?_, ?_, by simp [Store.opened], hperm.nodup_iff.mpr h.nodup_pages, fun k => ?_, ?_, ?_,
    h.nodup, h.others, h.hits, ?_⟩
  · intro k hk
    rcases hcases k hk with ⟨hk, hkp⟩ | rfl
    · rw [page_opened_of_ne S hkp]
      exact h.sound k hk
    · rw [page_opened_self]
      exact sound_opened hseq []
  · intro k hk
    rcases hcases k hk with ⟨hk, hkp⟩ | rfl
    · rw [page_opened_of_ne S hkp]
      exact h.wf k hk
    · simp
  · intro k hk
    rcases hcases k hk with ⟨hk, hkp⟩ | rfl
    · rw [page_opened_of_ne S hkp]
      exact h.size k hk
    · simp
  · rw [hperm.mem_iff, h.mem_iff]
  · intro hnil
    simpa [Store.opened, hfree] using hnil
  · rw [liveOf_opened (h.free_notMem hp) (h.free_lt hp), h.live]
  · intro _ k hk
    rcases hcases k hk with ⟨hk, hkp⟩ | rfl
    · rw [page_opened_of_ne S hkp]
      exact h.calm (by rw [hfree]; simp) k hk
    · rw [page_opened_self]
      exact ⟨searched_opened seq [], by simp⟩

theorem Tidy.of_spare {cut' : Prop} (h : Tidy n ns key L cut torn B S) (hfree : S.free ≠ []) :
    Tidy n ns key L cut' torn B S :=
  { h with spare := fun hnil => absurd hnil hfree }

/-- The last free page is set up, and a page given up for it. -/
theorem Tidy.evacuated (h : Tidy n ns key L cut False B S) (hfree : S.free = [p]) (hv : v ∈ S.used)
    (hseq : seq < 2 ^ 32) : Tidy n ns key L cut False B ((S.opened p seq).evacuated v p) := by
  have hopen := h.opened hfree hseq
  have hp : p ∈ S.free := by
    rw [hfree]
    simp
  have hne : v ≠ p := ne_of_mem_of_not_mem hv (h.free_notMem hp)
  have hclean := fun {k : ℕ} (hk : k ∈ S.used) => h.clean (by rw [hfree]; simp) hk
  have hvpage : (S.opened p seq).page v = S.page v := page_opened_of_ne S hne
  have hv' : v ∈ (S.opened p seq).used := by simp [Store.opened, hv]
  have hp' : p ∈ (S.opened p seq).used := by simp [Store.opened]
  have hperm := (S.opened p seq).perm_evacuated hv' p
  have hnew : ((S.opened p seq).evacuated v p).page p =
      ⟨pageHeader pageActive seq, (S.page v).recs.filter Rec.live⟩ := by
    simp [Store.evacuated, hvpage]
  -- the pages that are left: the ones of the store, and the new one
  have hcases : ∀ k ∈ ((S.opened p seq).evacuated v p).used,
      (k ∈ S.used ∧ ((S.opened p seq).evacuated v p).page k = S.page k) ∨ k = p := by
    intro k hk
    rcases mem_append.mp (mem_of_mem_erase hk) with hk | hk
    · have hkp : k ≠ p := ne_of_mem_of_not_mem hk (h.free_notMem hp)
      refine Or.inl ⟨hk, ?_⟩
      simp only [Store.evacuated, update_of_ne hkp, page_opened_of_ne S hkp]
    · exact Or.inr (List.mem_singleton.mp hk)
  refine ⟨?_, ?_, ?_, ?_, hperm.nodup_iff.mpr hopen.nodup_pages, fun k => ?_, ?_, ?_, h.nodup,
    h.others, h.hits, ?_⟩
  · intro k hk
    rcases hcases k hk with ⟨hk, e⟩ | rfl
    · rw [e]
      exact h.sound k hk
    · rw [hnew]
      exact sound_opened hseq _
  · intro k hk
    rcases hcases k hk with ⟨hk, e⟩ | rfl
    · rw [e]
      exact h.wf k hk
    · rw [hnew]
      exact fun r hr => h.wf v hv r (mem_of_mem_filter hr)
  · intro k hk
    rcases hcases k hk with ⟨hk, e⟩ | rfl
    · rw [e]
      exact h.size k hk
    · rw [hnew]
      exact (@usedCnt_le (S.page v)).trans (h.size v hv)
  · exact ne_nil_of_mem ((List.mem_erase_of_ne hne.symm).mpr hp')
  · rw [hperm.mem_iff, hopen.mem_iff]
  · simp [Store.evacuated]
  · rw [liveOf_evacuated hopen.nodup_used hv' hp' (hopen.used_lt hv') (hopen.used_lt hp') hne
      (by rw [hvpage]; exact (hclean hv).1) (by rw [page_opened_self]; exact searched_opened seq [])
      (by rw [page_opened_self]), hopen.live]
  · intro _ k hk
    rcases hcases k hk with ⟨hk, e⟩ | rfl
    · rw [e]
      exact ⟨(hclean hk).1, fun r hr => Or.inl ((hclean hk).2 r hr)⟩
    · rw [hnew]
      refine ⟨searched_opened seq _, fun r hr => Or.inl ?_⟩
      exact (hclean hv).2 r (mem_of_mem_filter hr)

/-- What the flash holds while records are copied: if it is settled, everything has been copied. -/
theorem Tidy.stage_copying (h : Tidy n ns key L cut False B S) (hmine : Mine W ns key B)
    (hfree : S.free = [p]) (hv : v ∈ S.used) (hseq : seq < 2 ^ 32) (m q : ℕ) :
    Stage n ns key L W (update ((S.opened p seq).mark v pageCandidate).shot p
      (some { (S.opened p seq).page p with
        recs := cutRecs m q (((S.opened p seq).page v).recs.filter Rec.live) })) := by
  have hopen := h.opened hfree hseq
  have hp : p ∈ S.free := by
    rw [hfree]
    simp
  have hne : v ≠ p := ne_of_mem_of_not_mem hv (h.free_notMem hp)
  have hvs := (h.clean (by rw [hfree]; simp) hv).1
  have hvpage : (S.opened p seq).page v = S.page v := page_opened_of_ne S hne
  have hv' : v ∈ (S.opened p seq).used := by simp [Store.opened, hv]
  have hp' : p ∈ (S.opened p seq).used := by simp [Store.opened]
  have hvn := h.used_lt hv
  have hpn := h.free_lt hp
  -- no sector is blank
  have hall : ∀ k < n, k ∈ (S.opened p seq).used := by
    intro k hk
    have := (h.mem_iff k).mpr hk
    rwa [hfree] at this
  obtain ⟨O, hO, hcopy⟩ := liveOf_copying hv' hp' hvn hpn hne (by rw [hvpage]; exact hvs)
    (by rw [page_opened_self]; exact searched_opened seq []) (by rw [page_opened_self])
    (cutRecs m q (((S.opened p seq).page v).recs.filter Rec.live))
  generalize hT : update ((S.opened p seq).mark v pageCandidate).shot p
      (some { (S.opened p seq).page p with
        recs := cutRecs m q (((S.opened p seq).page v).recs.filter Rec.live) }) = T at hcopy ⊢
  have hshot : ∀ k < n, (k ≠ v → k ≠ p → T k = some (S.page k) ∧ k ∈ S.used) ∧
      T v = some ((S.page v).withState pageCandidate) ∧
      T p = some ⟨pageHeader pageActive seq, cutRecs m q ((S.page v).recs.filter Rec.live)⟩ := by
    intro k hk
    subst hT
    refine ⟨fun hkv hkp => ⟨?_, ?_⟩, ?_, ?_⟩
    · rw [update_of_ne hkp, Store.mark, Store.shot_setPage _ hv', update_of_ne hkv,
        Store.shot, if_pos (hall k hk), page_opened_of_ne S hkp]
    · rcases mem_append.mp (hall k hk) with h' | h'
      · exact h'
      · exact absurd (List.mem_singleton.mp h') hkp
    · rw [update_of_ne hne, Store.mark, Store.shot_setPage _ hv', update_self,
        hvpage]
    · rw [update_self, page_opened_self, hvpage]
  have hsettled : Settled n T → liveOf n T = L + B := by
    intro hset
    have hle := hset.copied v hvn _ (hshot v hvn).2.1 (searched_candidate _)
    rw [hcopy, hvpage] at hle
    rw [hvpage] at hO hcopy
    have hlive : ∀ r ∈ (S.page v).recs.filter Rec.live, r.live = true := fun r hr =>
      (List.mem_filter.mp hr).2
    have hnd : (O + recsLive ((S.page v).recs.filter Rec.live)).Nodup := by
      rw [recsLive_filter, ← hO, hopen.live]
      exact h.nodup
    have hle' : recsLive ((S.page v).recs.filter Rec.live) ≤
        O + recsLive (cutRecs m q ((S.page v).recs.filter Rec.live)) := by
      rw [recsLive_filter]
      exact hle
    rw [hcopy, recsLive_cutRecs hlive hnd hle', recsLive_filter, ← hO, hopen.live]
  refine ⟨?_, ⟨v, hvn, ?_⟩, fun hset => ?_, fun hset => ?_, fun hset => ?_, ?_⟩
  · intro k hk A hA
    by_cases hkv : k = v
    · subst hkv
      rw [(hshot k hk).2.1] at hA
      rw [← Option.some.inj hA]
      exact (h.sound k hv).withState (Or.inr (Or.inr rfl))
    by_cases hkp : k = p
    · subst hkp
      rw [(hshot k hk).2.2] at hA
      rw [← Option.some.inj hA]
      exact sound_opened hseq _
    · obtain ⟨e, hmem⟩ := (hshot k hk).1 hkv hkp
      rw [e] at hA
      rw [← Option.some.inj hA]
      exact h.sound k hmem
  · rw [(hshot v hvn).2.1]
    simp
  · rw [hsettled hset, filter_others h.others h.hits]
  · rw [own, hsettled hset, filter_own h.others h.hits]
    exact hmine
  · rw [hsettled hset]
    exact h.nodup
  · intro _ j hj hnone
    by_cases hjv : j = v
    · rw [hjv, (hshot j hj).2.1] at hnone
      exact absurd hnone (by simp)
    by_cases hjp : j = p
    · rw [hjp, (hshot j hj).2.2] at hnone
      exact absurd hnone (by simp)
    · rw [((hshot j hj).1 hjv hjp).1] at hnone
      exact absurd hnone (by simp)

include hrom

/-- **Requesting a page.** -/
theorem Tidy.does_turn (h : Tidy n ns key L cut False B S) (hmine : Mine W ns key B)
    (hseq : seq < 2 ^ 32) :
    Does n (newPageRequest rom seq) S (.ok ((S.turned seq).map Prod.fst))
        (((S.turned seq).map Prod.snd).getD S) id (Stage n ns key L W) ∧
      Tidy n ns key L cut False B (((S.turned seq).map Prod.snd).getD S) := by
  refine ⟨(does_newPageRequest hrom hseq fun hone k hk => ?_).mono ?_, ?_⟩
  · refine h.clean ?_ hk
    intro hnil
    rw [hnil] at hone
    simp at hone
  · rintro T (rfl | ⟨p, rest, hfree, rfl | ⟨v, rfl, hvictim, hT⟩⟩)
    · exact h.stage hmine
    · exact (h.opened hfree hseq).stage hmine
    · have hv := (S.victim_spec hvictim).1
      rcases hT with rfl | ⟨m, q, -, rfl⟩ | rfl
      · exact (h.opened hfree hseq).stage hmine
      · exact h.stage_copying hmine hfree hv hseq m q
      · exact (h.evacuated hfree hv hseq).stage hmine
  · rw [Store.turned]
    rcases hfree : S.free with _ | ⟨p, _ | ⟨q, rest⟩⟩
    · exact h
    · rcases hvictim : S.victim with _ | v
      · exact h
      · exact h.evacuated hfree (S.victim_spec hvictim).1 hseq
    · exact (h.opened hfree hseq).of_spare (by simp [Store.opened, hfree])

end Turn


end Tidy

end Nvds

end Gd32
