import Gd32Firmware.Nvds.Store

/-!
# Specifications over stores

`Nvds.Does` is the form in which the functions of the storage are specified: from every
environment that represents a store they return the same code and leave an environment that
represents another store. What the flash holds on the way is kept as well. A *shot* says of each
sector whether it is blank or holds a page of records, and `Nvds.Goes` collects the shots of
all moments between two environments; the calls issued all fit the device.
-/

namespace Gd32

open Function

variable {𝒬 : SlotPage → Prop} {A : APage} {j : ℕ}

namespace Nvds

open NorFlash LittleEndian

/-! ### Shots -/

/-- What the sectors of a partition hold: nothing, or a page. -/
abbrev Shot := ℕ → Option APage

/-- The page is blank, or it is the page of the shot. -/
def Pictures (P : SlotPage) : Option APage → Prop
  | none => P = .blank
  | some A => Draws P A

/-- The flash of a partition of `n` sectors at address `b` holds what the shot says. -/
def Depicts (n b : ℕ) (f : Flash) (T : Shot) : Prop :=
  ∀ k < n, ∃ P, Holds f (b + 4096 * k) P ∧ Pictures P (T k)

/-- The shot of a store. -/
def Store.shot (S : Store) : Shot := fun k => if k ∈ S.used then some (S.page k) else none

/-- A represented store is what the flash holds. -/
theorem Rep.depicts {n : ℕ} {env : FlashEnv} {S : Store} (h : Rep n env S) :
    Depicts n env.baseAddr env.flash S.shot := by
  intro k hk
  rcases List.mem_append.mp ((h.mem_iff k).mpr hk) with hused | hfree
  · obtain ⟨⟨P, hm, hd, -⟩, -⟩ := h.pages k hused
    refine ⟨P, hm.holds, ?_⟩
    rw [Store.shot, if_pos hused]
    exact hd
  · refine ⟨.blank, (h.frees k hfree).holds, ?_⟩
    have hnot : k ∉ S.used := fun hused => (List.nodup_append.mp h.nodup).2.2 k hused k hfree rfl
    rw [Store.shot, if_neg hnot]
    rfl

/-! ### What the flash holds on the way -/

/-- From `env` to `env'` calls are issued that all fit, and at every moment, both ends included,
the flash holds a shot in `𝒯`. -/
structure Goes (n : ℕ) (𝒯 : Shot → Prop) (env env' : FlashEnv) : Prop where
  base_eq : env'.baseAddr = env.baseAddr
  length_eq : env'.length = env.length
  calls : ∃ ps, env'.dev.log = env.dev.log ++ ps ∧
    env'.dev.flash = applyAll env.dev.flash ps ∧
    Along (fun f => ∃ T, 𝒯 T ∧ Depicts n env.baseAddr f T) env.dev.flash ps

section Goes

variable {n : ℕ} {𝒯 𝒯' : Shot → Prop} {env env' env'' : FlashEnv} {T : Shot}

/-- Nothing is issued; the environment may change otherwise. -/
theorem goes_of_dev_eq (hb : env'.baseAddr = env.baseAddr) (hl : env'.length = env.length)
    (hd : env'.dev = env.dev) (hT : 𝒯 T) (h : Depicts n env.baseAddr env.flash T) :
    Goes n 𝒯 env env' :=
  ⟨hb, hl, [], by simp [hd], by rw [hd]; rfl, T, hT, h⟩

theorem Goes.mono (h : Goes n 𝒯 env env') (hle : ∀ T, 𝒯 T → 𝒯' T) : Goes n 𝒯' env env' := by
  obtain ⟨hb, hl, ps, hlog, hflash, halong⟩ := h
  exact ⟨hb, hl, ps, hlog, hflash, halong.mono fun f ⟨T, hT, hf⟩ => ⟨T, hle T hT, hf⟩⟩

theorem Goes.trans (h : Goes n 𝒯 env env') (h' : Goes n 𝒯 env' env'') : Goes n 𝒯 env env'' := by
  obtain ⟨hb, hl, ps, hlog, hflash, halong⟩ := h
  obtain ⟨hb', hl', qs, hlog', hflash', halong'⟩ := h'
  refine ⟨hb'.trans hb, hl'.trans hl, ps ++ qs, ?_, ?_, ?_⟩
  · rw [hlog', hlog, List.append_assoc]
  · rw [hflash', hflash, applyAll_append]
  · rw [hb] at halong'
    exact halong.append (hflash ▸ halong')

/-- **A call on one page** changes the shot at that page only. -/
theorem Touch.goes {k : ℕ} (h : Touch k 𝒬 env env') (hk : k < n)
    (hT : Depicts n env.baseAddr env.flash T) {𝒪 : Option APage → Prop}
    (h𝒪 : ∀ P, 𝒬 P → ∃ o, 𝒪 o ∧ Pictures P o) :
    Goes n (fun T' => ∃ o, 𝒪 o ∧ T' = update T k o) env env' := by
  obtain ⟨⟨p, d, rfl⟩, ps, hlog, hflash, hw, halong⟩ := h
  refine ⟨rfl, rfl, ps, hlog, hflash, (halong.within hw).mono ?_⟩
  rintro f ⟨⟨P, hP, hf⟩, hout⟩
  obtain ⟨o, ho, hpic⟩ := h𝒪 P hP
  refine ⟨_, ⟨o, ho, rfl⟩, fun j hj => ?_⟩
  by_cases hjk : j = k
  · subst hjk
    rw [update_self]
    exact ⟨P, hf, hpic⟩
  · -- the other sectors are as before
    rw [update_of_ne hjk]
    obtain ⟨Q, hQ, hpicQ⟩ := hT j hj
    refine ⟨Q, hQ.congr fun x h1 h2 => hout x ?_, hpicQ⟩
    simp only [FlashEnv.addr]
    omega

/-- What the flash holds after a call on one page. -/
theorem Depicts.of_touch {k : ℕ} (hT : Depicts n env.baseAddr env.flash T)
    (h : Touch k 𝒬 env env') {P : SlotPage} (hP : Holds env'.flash (env'.addr k) P)
    {o : Option APage} (hpic : Pictures P o) :
    Depicts n env'.baseAddr env'.flash (update T k o) := by
  intro j hj
  by_cases hjk : j = k
  · subst hjk
    rw [update_self]
    exact ⟨P, hP, hpic⟩
  · rw [update_of_ne hjk]
    obtain ⟨Q, hQ, hpicQ⟩ := hT j hj
    exact ⟨Q, h.holds hjk hQ, hpicQ⟩

end Goes

/-! ### Triples -/

/-- From every environment that represents `S`, the computation returns `r` and leaves one that
represents `S'`. The namespace records are changed by `σ`, and the flash passes through shots in
`𝒯`. -/
def Does {α : Type} (n : ℕ) (x : NvdsM α) (S : Store) (r : Except NvdsErr α) (S' : Store)
    (σ : List NamespaceInfo → List NamespaceInfo) (𝒯 : Shot → Prop) : Prop :=
  ∀ env, Rep n env S → ∃ env', x env = some (r, env') ∧ Rep n env' S' ∧ Goes n 𝒯 env env' ∧
    env'.nsList = σ env.nsList ∧ env'.nsStates = env.nsStates

section Does

variable {α β : Type} {n : ℕ} {x : NvdsM α} {f : α → NvdsM β} {S S' S'' : Store} {a : α}
  {e : NvdsErr} {r : Except NvdsErr α} {σ σ' : List NamespaceInfo → List NamespaceInfo}
  {𝒯 𝒯' : Shot → Prop}

theorem Does.mono (h : Does n x S r S' σ 𝒯) (hle : ∀ T, 𝒯 T → 𝒯' T) :
    Does n x S r S' σ 𝒯' := by
  intro env hrep
  obtain ⟨env', hrun, hrep', hgoes, hns⟩ := h env hrep
  exact ⟨env', hrun, hrep', hgoes.mono hle, hns⟩

/-- One computation after the other. -/
theorem Does.bind {r' : Except NvdsErr β} (h : Does n x S (.ok a) S' σ 𝒯)
    (h' : Does n (f a) S' r' S'' σ' 𝒯) : Does n (x >>= f) S r' S'' (σ' ∘ σ) 𝒯 := by
  intro env hrep
  obtain ⟨env', hrun, hrep', hgoes, hlist, hstates⟩ := h env hrep
  obtain ⟨env'', hrun', hrep'', hgoes', hlist', hstates'⟩ := h' env' hrep'
  refine ⟨env'', ?_, hrep'', hgoes.trans hgoes', ?_, hstates'.trans hstates⟩
  · rw [NvdsM.bind_ok hrun]
    exact hrun'
  · rw [hlist', hlist]
    rfl

/-- One computation after the other, the first leaving the namespace records alone. -/
theorem Does.seq {r' : Except NvdsErr β} (h : Does n x S (.ok a) S' id 𝒯)
    (h' : Does n (f a) S' r' S'' σ 𝒯) : Does n (x >>= f) S r' S'' σ 𝒯 := h.bind h'

theorem Does.bind_error (h : Does n x S (.error e) S' σ 𝒯) (f : α → NvdsM β) :
    Does n (x >>= f) S (.error e) S' σ 𝒯 := by
  intro env hrep
  obtain ⟨env', hrun, h'⟩ := h env hrep
  exact ⟨env', NvdsM.bind_error hrun, h'⟩

theorem Does.attempt (h : Does n x S r S' σ 𝒯) : Does n (NvdsM.attempt x) S (.ok r) S' σ 𝒯 := by
  intro env hrep
  obtain ⟨env', hrun, h'⟩ := h env hrep
  exact ⟨env', NvdsM.attempt_eq hrun, h'⟩

/-- What only looks at the environment. -/
theorem does_of_eq (h : ∀ env, Rep n env S → x env = some (r, env)) (hT : 𝒯 S.shot) :
    Does n x S r S id 𝒯 := fun env hrep =>
  ⟨env, h env hrep, hrep, goes_of_dev_eq rfl rfl rfl hT hrep.depicts, rfl, rfl⟩

theorem does_pure (a : α) (hT : 𝒯 S.shot) : Does n (pure a) S (.ok a) S id 𝒯 :=
  does_of_eq (fun _ _ => rfl) hT

theorem does_throw (e : NvdsErr) (hT : 𝒯 S.shot) :
    Does n (NvdsM.throw e : NvdsM α) S (.error e) S id 𝒯 := does_of_eq (fun _ _ => rfl) hT

theorem does_search {g : FlashEnv → Option (Except NvdsErr α)}
    (h : ∀ env, Rep n env S → g env = some r) (hT : 𝒯 S.shot) :
    Does n (NvdsM.search g) S r S id 𝒯 :=
  does_of_eq (fun env hrep => NvdsM.search_eq (h env hrep)) hT

theorem does_look {g : FlashEnv → Except NvdsErr α} (h : ∀ env, Rep n env S → g env = r)
    (hT : 𝒯 S.shot) : Does n (NvdsM.look g) S r S id 𝒯 :=
  does_of_eq (fun env hrep => by rw [NvdsM.look, h env hrep]) hT

/-- Only the device and the page records matter to a page. -/
theorem PageRep.congr {env env' : FlashEnv} {k : ℕ} (h : PageRep env k A)
    (hb : env'.baseAddr = env.baseAddr) (hp : env'.pages = env.pages) (hd : env'.dev = env.dev) :
    PageRep env' k A := by
  have hflash : env'.flash = env.flash := by rw [FlashEnv.flash, hd, FlashEnv.flash]
  have haddr : env'.addr k = env.addr k := by rw [FlashEnv.addr, hb, FlashEnv.addr]
  obtain ⟨⟨P, hm, hP⟩, hc⟩ := h
  refine ⟨⟨P, ⟨⟨?_, ?_, ?_, ?_⟩, ?_⟩, hP⟩, by rw [hp, hc]⟩
  · rw [hflash, haddr]
    exact hm.holds
  · rw [hp, hm.header]
  · rw [hp, hm.table]
  · rw [hp, hm.base]
  · rw [hp, hm.next]

theorem FreeRep.congr {env env' : FlashEnv} {k : ℕ} (h : FreeRep env k)
    (hb : env'.baseAddr = env.baseAddr) (hp : env'.pages = env.pages) (hd : env'.dev = env.dev) :
    FreeRep env' k := by
  have hflash : env'.flash = env.flash := by rw [FlashEnv.flash, hd, FlashEnv.flash]
  have haddr : env'.addr k = env.addr k := by rw [FlashEnv.addr, hb, FlashEnv.addr]
  refine ⟨by rw [hp, h.state], by rw [hp, h.base], ?_⟩
  rw [hflash, haddr]
  exact h.holds

/-- The namespace records do not matter to the store. -/
theorem Rep.of_names {env : FlashEnv} (h : Rep n env S) (l : List NamespaceInfo) (g : ℕ → Bool) :
    Rep n { env with nsList := l, nsStates := g } S where
  geo := ⟨h.geo.length_eq, h.geo.on_device⟩
  used_eq := h.used_eq
  free_eq := h.free_eq
  nodup := h.nodup
  mem_iff := h.mem_iff
  pages k hk := (h.pages k hk).congr rfl rfl rfl
  frees k hk := (h.frees k hk).congr rfl rfl rfl

end Does

/-! ### Changing one page of a store -/

/-- The store with one page replaced. -/
def Store.setPage (S : Store) (k : ℕ) (A : APage) : Store :=
  { S with page := update S.page k A }

@[simp] theorem Store.used_setPage (S : Store) (k : ℕ) (A : APage) :
    (S.setPage k A).used = S.used := rfl

@[simp] theorem Store.page_setPage (S : Store) (k : ℕ) (A : APage) :
    (S.setPage k A).page k = A := update_self _ _ _

theorem Store.page_setPage_of_ne (S : Store) {k : ℕ} (h : j ≠ k) (A : APage) :
    (S.setPage k A).page j = S.page j := update_of_ne h _ _

theorem Store.shot_setPage (S : Store) {k : ℕ} (hk : k ∈ S.used) (A : APage) :
    (S.setPage k A).shot = update S.shot k (some A) := by
  funext j
  by_cases hj : j = k
  · subst hj
    simp [Store.shot, hk]
  · rw [update_of_ne hj, Store.shot, Store.shot, Store.used_setPage,
      Store.page_setPage_of_ne S hj]

section Page

variable {α : Type} {n : ℕ} {S : Store} {k : ℕ}

theorem PageRep.of_touch {env env' : FlashEnv} (h : Touch k 𝒬 env env') (hj : j ≠ k) (hA : PageRep env j A) : PageRep env' j A := by
  obtain ⟨⟨P, hm, hd⟩, hc⟩ := hA
  exact ⟨⟨P, h.mirrors hj hm, hd⟩, by rw [h.pages_of_ne hj, hc]⟩

theorem FreeRep.of_touch {env env' : FlashEnv} (h : Touch k 𝒬 env env') (hj : j ≠ k) (hA : FreeRep env j) : FreeRep env' j := by
  obtain ⟨hs, hb, hh⟩ := hA
  have hpage := h.pages_of_ne hj
  exact ⟨by rw [hpage, hs], by rw [hpage, hb], h.holds hj hh⟩

/-- A touch of a used page replaces that page of the store. -/
theorem Rep.of_touch {env env' : FlashEnv} (hrep : Rep n env S)
    (hk : k ∈ S.used) (h : Touch k 𝒬 env env') (hA : PageRep env' k A) :
    Rep n env' (S.setPage k A) := by
  have hlists : env'.pageUsed = env.pageUsed ∧ env'.pageFree = env.pageFree := by
    obtain ⟨p, d, rfl⟩ := h.frame
    exact ⟨rfl, rfl⟩
  refine ⟨h.geometry hrep.geo, hlists.1.trans hrep.used_eq, hlists.2.trans hrep.free_eq,
    hrep.nodup, hrep.mem_iff, ?_, ?_⟩
  · intro j hj
    by_cases hjk : j = k
    · subst hjk
      rw [Store.page_setPage]
      exact hA
    · rw [Store.page_setPage_of_ne S hjk]
      exact (hrep.pages j hj).of_touch h hjk
  · intro j hj
    refine (hrep.frees j hj).of_touch h ?_
    rintro rfl
    exact (List.nodup_append.mp hrep.nodup).2.2 _ hk _ hj rfl

/-- **A computation that touches one used page.** -/
theorem does_touch (𝒜 : APage → Prop) {x : NvdsM α} {a : α} (hk : k ∈ S.used)
    (h : ∀ env, Rep n env S → ∃ (env' : FlashEnv) (𝒬 : SlotPage → Prop),
      x env = some (.ok a, env') ∧ Touch k 𝒬 env env' ∧ PageRep env' k A ∧
      ∀ P, 𝒬 P → ∃ A, 𝒜 A ∧ Draws P A) :
    Does n x S (.ok a) (S.setPage k A) id
      (fun T => ∃ A, 𝒜 A ∧ T = (S.setPage k A).shot) := by
  intro env hrep
  obtain ⟨env', 𝒬, hrun, htouch, hA, h𝒬⟩ := h env hrep
  refine ⟨env', hrun, hrep.of_touch hk htouch hA, ?_, ?_, ?_⟩
  · have hpic : ∀ P, 𝒬 P → ∃ o, (∃ A, 𝒜 A ∧ o = some A) ∧ Pictures P o := by
      intro P hP
      obtain ⟨B, hB, hd⟩ := h𝒬 P hP
      exact ⟨some B, ⟨B, hB, rfl⟩, hd⟩
    refine (htouch.goes (hrep.used_lt hk) hrep.depicts hpic).mono ?_
    · rintro T ⟨o, ⟨B, hB, rfl⟩, rfl⟩
      exact ⟨B, hB, (S.shot_setPage hk B).symm⟩
  · obtain ⟨p, d, rfl⟩ := htouch.frame
    rfl
  · obtain ⟨p, d, rfl⟩ := htouch.frame
    rfl

end Page

end Nvds

end Gd32
