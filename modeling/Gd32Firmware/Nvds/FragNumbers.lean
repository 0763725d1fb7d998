import Gd32Firmware.Nvds.DelKeysRuns
import Gd32Firmware.Nvds.Images

/-!
# The numbers of fragments

A value of more than 256 bytes is stored in fragments, and the header of a fragment has its number
in five bits of the tag. `bulk_element_put` counts in a `uint16_t` and puts the count into the tag
as it is, so the number 32 and those behind it spill into the type, and the header is not one of a
fragment any more.

How many fragments a value has depends on the room on the pages that it comes to lie on. All
fragments but the last one fill their page, and a page filled with records in use is not given up
for another, so there are at most as many fragments as pages that are not the spare one, and one
more on the page that was written to last: on a partition of at most 32 sectors the number always
fits (`Well.headersRight`). That it need not fit on a larger one is shown in
`Gd32Firmware.Nvds.Crowded`.
-/

namespace Gd32.Nvds

open NorFlash LittleEndian List

/-! ### The headers that are written -/

/-- A header that `bulk_element_put` writes, with the namespace and the number that it is made of. -/
structure FragHeader where
  ns : ℕ
  frag : ℕ
  hdr : Entry

/-- The header decodes to what it is made of. -/
def FragHeader.Decodes (h : FragHeader) : Prop :=
  Entry.ns h.hdr = h.ns ∧ Entry.type h.hdr = .bulk ∧ Entry.fragno h.hdr = h.frag

/-- **The headers of a value are right**: each decodes to what it is made of, and no two of them
have the same number. -/
def HeadersRight (hs : List FragHeader) : Prop :=
  (∀ h ∈ hs, h.Decodes) ∧ (hs.map fun h => Entry.fragno h.hdr).Nodup

section Headers

variable (rom : NvdsRom)

/-- The headers that the loop of `bulk_element_put` writes, round by round as in `bulkFragsPut`. -/
def fragHeaders (ns : ℕ) (key : CString) (buf : List UInt8) :
    ℕ → ℕ → List UInt8 → ℕ → FlashEnv → List FragHeader
  | 0, _, _, _, _ => []
  | n + 1, k, rest, frag, env =>
    match roomFor rom (2 * entrySize) k env with
    | some (.ok (some p), env₁) =>
      let len := min (pageRoomGet (env₁.pages p) - entrySize) rest.length
      let entry := bulkEntry ns key buf frag len
      ⟨ns, frag, entry⟩ ::
        match elementWrite rom p entry (rest.take len) env₁ with
        | some (.ok (), env₂) =>
          if rest.length - len = 0 then []
          else fragHeaders ns key buf n p (rest.drop len) (frag + 1) env₂
        | _ => []
    | _ => []

/-- The headers of fragments that `bulk_element_put` writes. -/
def bulkHeaders (ns : ℕ) (key : CString) (buf : List UInt8) (env : FlashEnv) : List FragHeader :=
  match currentPage env with
  | some (.ok k, env₁) => fragHeaders rom ns key buf (buf.length + 1) k buf 0 env₁
  | _ => []

/-- The headers of fragments that `data_element_put` writes: there are some if the value is a new
one, the old one has been deleted, and the new one is large. -/
def elementHeaders (ns : ℕ) (key : CString) (buf : List UInt8) (env : FlashEnv) :
    List FragHeader :=
  match elementCompare rom env ns key buf, dropOld rom ns key env with
  | some false, some (.ok (), env₁) =>
    if elementMiddleMaxSize < buf.length then bulkHeaders rom ns key buf env₁ else []
  | _, _ => []

/-- The headers of fragments that `nvds_data_put` writes. The definition of a namespace, which may
be written before, has no fragments. -/
def putHeaders (name : Option CString) (key : CString) (v : List UInt8) (env : FlashEnv) :
    List FragHeader :=
  if 0 < v.length ∧ v.length ≤ elementBulkMaxSize ∧ key.len ≤ keyNameMaxSize - 1 then
    match nsIndexByNamespace rom name true env with
    | some (.ok idx, env₁) => elementHeaders rom idx key v env₁
    | _ => []
  else []

variable {rom}

/-- The numbers are counted up. -/
theorem map_frag_fragHeaders (ns : ℕ) (key : CString) (buf : List UInt8) (fuel k : ℕ)
    (rest : List UInt8) (frag : ℕ) (env : FlashEnv) :
    (fragHeaders rom ns key buf fuel k rest frag env).map FragHeader.frag =
      List.range' frag (fragHeaders rom ns key buf fuel k rest frag env).length := by
  induction fuel generalizing k rest frag env with
  | zero => rfl
  | succ fuel ih =>
    rw [fragHeaders]
    split
    · rw [map_cons, length_cons, List.range'_succ]
      refine congrArg _ ?_
      split
      · split
        · rfl
        · exact ih _ _ _ _
      · rfl
    · rfl

/-- The numbers of headers that decode are different. -/
theorem headersRight_of_decodes {ns : ℕ} {key : CString} {buf : List UInt8} {fuel k : ℕ}
    {rest : List UInt8} {frag : ℕ} {env : FlashEnv}
    (h : ∀ d ∈ fragHeaders rom ns key buf fuel k rest frag env, d.Decodes) :
    HeadersRight (fragHeaders rom ns key buf fuel k rest frag env) := by
  refine ⟨h, ?_⟩
  rw [map_congr_left fun d hd => (h d hd).2.2, map_frag_fragHeaders]
  exact nodup_range'

theorem headersRight_nil : HeadersRight [] := ⟨by simp, by simp⟩

end Headers

/-! ### At most 32 sectors -/

section Few

variable {rom : NvdsRom} (hrom : rom.Reliable) {n ns : ℕ} (hn : n ≤ 32) (hns : ns < 256)
  {key : CString} (hkey : key.len < keyNameMaxSize) {L : Multiset Body} {cut : Prop} {S : Store}
  {v : List UInt8} {env : FlashEnv}

/-- A header with a number below 32 decodes. -/
theorem decodes_bulkEntry (hns : ns < 256) (hkey : key.len < keyNameMaxSize) {i len : ℕ}
    (hi : i < 32) (hlen : len ≤ 12800) : (⟨ns, i, bulkEntry ns key v i len⟩ : FragHeader).Decodes := by
  have hf := inFields_bulk hns hkey v hi hlen
  obtain ⟨htype, -, hno⟩ := fields_bulk hns hkey v hi hlen
  exact ⟨hf.ns_eq, htype, hno⟩

include hrom hn hns hkey

/-- **The loop**: in every round the number of the next fragment fits its field. -/
theorem Fragmenting.decodes {lens : List ℕ} {k : ℕ} (hle : v.length ≤ 12800)
    (h : Fragmenting n ns key L cut v lens k S) (hlt : lens.sum < v.length) (hrep : Rep n env S)
    (fuel : ℕ) :
    ∀ d ∈ fragHeaders rom ns key v fuel k (v.drop lens.sum) lens.length env, d.Decodes := by
  induction fuel generalizing S lens k env with
  | zero => exact fun d hd => absurd hd not_mem_nil
  | succ fuel ih =>
    obtain ⟨o, S₁, hroom, htidy, hready⟩ := h.tidy.does_roomFor (W := fun _ => True) hrom
      (Or.inr (h.bulk hns hkey hle)) h.last h.searched (2 * entrySize)
    obtain ⟨env₁, hrun₁, hrep₁, -⟩ := hroom env hrep
    rw [fragHeaders, hrun₁]
    rcases o with _ | p
    · exact fun d hd => absurd hd not_mem_nil
    have hp := hready p rfl
    have hcount := h.count_lt hn htidy hp
    obtain ⟨S₂, -, hwrite, -, -, -, -, hsum, hmore⟩ :=
      h.does_next (W := fun _ => True) hrom hns hkey hle hcount hlt htidy hp rfl
    obtain ⟨env₂, hrun₂, hrep₂, -⟩ := hwrite env₁ hrep₁
    simp only [hrep₁.room_eq (mem_of_getLast? hp.last), length_drop]
    generalize min ((126 - recsSize (S₁.page p).recs) * 32 - entrySize) (v.length - lens.sum) = len
      at hrun₂ hsum hmore ⊢
    rw [hrun₂]
    intro d hd
    rcases mem_cons.mp hd with rfl | hd
    · exact decodes_bulkEntry hns hkey hcount (by omega)
    · -- the headers of the rounds that follow
      simp only at hd
      split at hd
      · exact absurd hd not_mem_nil
      · next hrest =>
        have hnext := ih (hmore (by omega)) (by rw [sum_append, sum_singleton]; omega) hrep₂
        rw [sum_append, sum_singleton, length_append, length_singleton,
          ← drop_drop] at hnext
        exact hnext d hd

/-- **`data_element_put`.** -/
theorem Tidy.headersRight {B : Multiset Body} {torn : Prop}
    (h : Tidy n ns key L cut torn B S) (hB : Stored ns key B) (hle : v.length ≤ 12800)
    (hrep : Rep n env S) : HeadersRight (elementHeaders rom ns key v env) := by
  obtain ⟨S₁, hdrop, htidy⟩ := h.does_dropOld (W := fun _ => True) hrom hns hkey hB fun _ _ => trivial
  obtain ⟨env₁, hrun₁, hrep₁, -⟩ := hdrop env hrep
  obtain ⟨k, hlast, hcur⟩ := @Tidy.does_currentPage _ _ _ _ _ _ _ _ htidy (fun _ => True) trivial
  rw [elementHeaders, hrun₁]
  split
  · next hrun =>
    obtain ⟨-, rfl⟩ := Prod.mk.inj (Option.some.inj hrun)
    split
    swap
    · exact headersRight_nil
    next hmiddle =>
    rw [bulkHeaders]
    rcases hcur with ⟨hs, hcur⟩ | ⟨-, hcur⟩
    · obtain ⟨env₂, hrun₂, hrep₂, -⟩ := hcur _ hrep₁
      rw [hrun₂]
      have hstart : Fragmenting n ns key L cut v [] k S₁ :=
        ⟨htidy, by simp, by simp, by simp, by simp, hlast, hs, Or.inl rfl⟩
      refine headersRight_of_decodes ?_
      exact hstart.decodes hrom hn hns hkey hle (by rw [sum_nil]; omega) hrep₂ (v.length + 1)
    · obtain ⟨env₂, hrun₂, -⟩ := hcur _ hrep₁
      rw [hrun₂]
      exact headersRight_nil
  · exact headersRight_nil

end Few

/-- The index of a namespace is only found for a name that is not too long. -/
theorem nameOk_of_index {rom : NvdsRom} {name : Option CString} {create : Bool} {i : ℕ}
    {env env' : FlashEnv} (h : nsIndexByNamespace rom name create env = some (.ok i, env')) :
    NameOk name := by
  rintro c rfl
  by_contra hlong
  have hlen : ¬c.len ≤ keyNameMaxSize - 1 := fun hle => hlong (Nat.lt_of_le_pred (by decide) hle)
  rw [nsIndexByNamespace, NvdsM.check_bind_false (by simpa using hlen)] at h
  cases h

/-- **At most 32 sectors**: in an environment in order, the headers of every put are right. -/
theorem Well.headersRight {rom : NvdsRom} (hrom : rom.Reliable) {n slack : ℕ} (hn : n ≤ 32)
    {env : FlashEnv} {S : Store} {m : Contents} (h : Well n slack False none env S m)
    (name : Option CString) (key : CString) (v : List UInt8) :
    HeadersRight (putHeaders rom name key v env) := by
  -- the put of a value, the namespace being defined
  have hput : ∀ {env S m i}, Well n slack False none env S m →
      nsIndex (nsIds env.nsList) name = some i → v.length ≤ 12800 →
      key.len < keyNameMaxSize → HeadersRight (elementHeaders rom i key v env) := by
    intro env S m i hw hi hle hkey
    have hns := (hw.named.index_range hi).2
    exact (hw.neat.tidy hw.kept (Or.inl rfl)).headersRight hrom hn hns hkey
      (hw.kept.stored i key hns hkey) hle hw.rep
  rw [putHeaders]
  split
  swap
  · exact headersRight_nil
  next hvalid =>
  have hle : v.length ≤ 12800 := hvalid.2.1
  have hkey : key.len < keyNameMaxSize := Nat.lt_of_le_pred (by decide) hvalid.2.2
  split
  swap
  · exact headersRight_nil
  next i env₁ hidx =>
  have hname := nameOk_of_index hidx
  rcases hi : nsIndex (nsIds env.nsList) name with _ | j
  · -- the namespace is created first
    rcases name with _ | c
    · exact absurd hi (by simp [nsIndex])
    rw [nsIndexByNamespace_none rom (hname c rfl) hi true, if_pos rfl] at hidx
    obtain ⟨r, env', S', hrun, hwell, -, hcase⟩ := h.create hrom hn (hname c rfl) hi key
    obtain ⟨rfl, rfl⟩ := Prod.mk.inj (Option.some.inj (hidx.symm.trans hrun))
    rcases hcase with ⟨i', D, hok, -, -, hids, -⟩ | ⟨e, he, -⟩
    · obtain rfl := Except.ok.inj hok
      refine hput hwell ?_ hle hkey
      rw [nsIndex_some hwell.named.names, hids]
      simp
    · cases he
  · rw [nsIndexByNamespace_some rom hname hi true] at hidx
    obtain ⟨hok, rfl⟩ := Prod.mk.inj (Option.some.inj hidx)
    obtain rfl := Except.ok.inj hok
    exact hput h hi hle hkey

end Gd32.Nvds
