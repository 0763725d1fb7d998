import Gd32Firmware.Ble.GattStore
import Gd32Firmware.Config
import Mathlib.Data.Int.Notation
import Mathlib.Order.Basic

/-!
# Reads and writes of the other side

The stack hands the reads and writes of the other side to `ble_tuya_rw_cb` of `tuya_ble_hal.c`, which
copies from or to the value of the node. A value has a current length, which every write and every
setting changes, and a largest one, for which there is room.

A write is checked against the room. A read is not checked: what is left of the value behind the
offset is a difference, which is taken for an unsigned number. `Ble.gattValues_iff` says in
which runs everything stays inside the values.
-/

namespace Gd32

open List

variable {data : List UInt8}

namespace Ble

/-! ### Requests -/

/-- What `ble_tuya_rw_cb` returns. -/
inductive AttStatus where
  | noError
  | invalidHandle
  | invalidOffset

/-- A `sys_memcpy` from or to the value of a node. -/
structure ValueCopy where
  node : AttrNode
  write : Bool
  first : ℕ
  len : ℕ

/-- What a read fills in. -/
structure ReadReply where
  valLen : ℕ
  attLen : ℕ
  /-- The bytes at `p_val`. -/
  val : List UInt8

/-- What comes of an event. -/
structure Handled where
  env : AdpEnv
  status : AttStatus
  copies : List ValueCopy
  reply : Option ReadReply

def bleMin (a b : ℕ) : ℕ := if a < b then a else b

/-- The reply with the value of a node; `behind` is what stands in the memory behind it. -/
def AttrNode.read (behind : ℕ → UInt8) (offset maxLen : ℕ) (x : AttrNode) : ReadReply :=
  let len := bleMin maxLen (((x.currValueLen : ℤ) - offset) % 2 ^ 32).toNat % 2 ^ 16
  { valLen := len
    attLen := x.currValueLen
    val := (List.range len).map fun i => (x.value[offset + i]?).getD (behind (offset + i)) }

/-- The node that a request of the other side is about. -/
def AdpEnv.attrOf (e : AdpEnv) (conidx handle : ℕ) : Option AttrNode :=
  (e.findConidx conidx).bind fun d => e.findAttr d.connHandle handle

/-- `ble_tuya_rw_cb` with a read. -/
def AdpEnv.rwRead (behind : ℕ → UInt8) (conidx handle offset maxLen : ℕ) (e : AdpEnv) : Handled :=
  match e.attrOf conidx handle with
  | none => ⟨e, .invalidHandle, [], none⟩
  | some x =>
    let r := x.read behind offset maxLen
    ⟨e, .noError, [⟨x, false, offset, r.valLen⟩], some r⟩

/-- `ble_tuya_rw_cb` with a write. -/
def AdpEnv.rwWrite (conidx svcId handle offset : ℕ) (data : List UInt8) (e : AdpEnv) : Handled :=
  let next := e.peerWrite conidx svcId handle offset data
  match e.findConidx conidx with
  | none => ⟨next, .invalidHandle, [], none⟩
  | some d =>
    if e.isCccd svcId handle then ⟨next, .noError, [], none⟩
    else
      match e.findAttr d.connHandle handle with
      | none => ⟨next, .invalidHandle, [], none⟩
      | some x =>
        if x.maxValueLen < data.length + offset then ⟨next, .invalidOffset, [], none⟩
        else ⟨next, .noError, [⟨x, true, offset, data.length⟩], none⟩

/-- `GATTS_SUBTYPE_SET_VAL`; `mem` says whether there is memory for a larger node. -/
def AdpEnv.setVal (mem : Bool) (connHandle charHandle : ℕ) (data : List UInt8) (e : AdpEnv) :
    Handled :=
  match e.findAttr connHandle charHandle with
  | none => ⟨e, .noError, [], none⟩
  | some x =>
    if x.maxValueLen < data.length ∧ mem = false then
      ⟨e.updateDev connHandle fun d =>
        d.updateAttr charHandle (AttrNode.setValue (data.take x.maxValueLen)),
        .noError, [⟨x, true, 0, x.maxValueLen⟩], none⟩
    else
      let room := max x.maxValueLen data.length
      ⟨e.valueSet connHandle charHandle data, .noError,
        [⟨{ x with maxValueLen := room }, true, 0, data.length⟩], none⟩

/-! ### Links -/

/-- `tkl_ble_alloc_gatts_attr_by_dev`; `mem` says for which nodes there is memory. -/
def AdpEnv.allocAttrsMem (mem : ℕ → Bool) (connHandle : ℕ) (e : AdpEnv) : AdpEnv :=
  let slots := (attrsFrom 0 e.srvAttrList).zipIdx e.allocs
  let new := (slots.filter fun x => mem x.2).map newNode
  { e.updateDev connHandle (fun d => { d with attrs := d.attrs ++ new }) with
    allocs := e.allocs + slots.length }

/-- What is noted of a link that is up, and its nodes. -/
def AdpEnv.linkUp (mem : ℕ → Bool) (connHdl conidx : ℕ) (role : BleRole) (e : AdpEnv) : AdpEnv :=
  let e := e.updateDev connHdl fun d => { d with conidx := conidx, role := role }
  if role = .server then e.allocAttrsMem mem connHdl else e

/-- `tkl_ble_app_conn_evt_handler` when a link is up; `memDev` says whether there is memory for the
device. -/
def AdpEnv.connectedMem (memDev : Bool) (mem : ℕ → Bool) (connHdl conidx : ℕ) (role : BleRole)
    (e : AdpEnv) : AdpEnv :=
  match e.findDev connHdl with
  | some _ => e.linkUp mem connHdl conidx role
  | none =>
    if memDev then
      AdpEnv.linkUp mem connHdl conidx role
        { e with connDevList := e.connDevList ++ [ConnDev.mk connHdl 0 .client []] }
    else e

/-- The lists are freed when the adapter is shut down. -/
def AdpEnv.freeLists (e : AdpEnv) : AdpEnv :=
  { e with
    srvCccdList := []
    srvAttrList := []
    connDevList := []
    freed := e.freed ++ (e.connDevList.map fun d => d.attrs.map AttrNode.id).flatten }

/-! ### Runs -/

/-- What can happen. -/
inductive ValueEvent where
  | addService (svc : ServiceParams) (sent : Bool) (result : Option ℕ)
  /-- The stack answers that a service is there, or is not. -/
  | svcAddRsp (svcId : ℕ) (ok : Bool)
  | connected (memDev : Bool) (mem : ℕ → Bool) (connHdl conidx : ℕ) (role : BleRole)
  | disconnected (connHdl : ℕ)
  | deinit
  | setVal (mem : Bool) (connHandle charHandle : ℕ) (data : List UInt8)
  | read (conidx handle offset maxLen : ℕ)
  | write (conidx svcId handle offset : ℕ) (data : List UInt8)

/-- What comes of it. -/
def ValueEvent.handle (behind : ℕ → UInt8) (i : ValueEvent) (e : AdpEnv) : Handled :=
  match i with
  | .addService svc sent result => ⟨e.addService svc sent result, .noError, [], none⟩
  | .svcAddRsp svcId ok => ⟨e.svcAddRsp svcId ok, .noError, [], none⟩
  | .connected memDev mem connHdl conidx role =>
    ⟨e.connectedMem memDev mem connHdl conidx role, .noError, [], none⟩
  | .disconnected connHdl => ⟨e.disconnected connHdl, .noError, [], none⟩
  | .deinit => ⟨e.freeLists, .noError, [], none⟩
  | .setVal mem connHandle charHandle data => e.setVal mem connHandle charHandle data
  | .read conidx handle offset maxLen => e.rwRead behind conidx handle offset maxLen
  | .write conidx svcId handle offset data => e.rwWrite conidx svcId handle offset data

/-- Offsets and lengths are 16-bit numbers. -/
def ValueEvent.Possible : ValueEvent → Prop
  | .setVal _ _ _ data => data.length < 2 ^ 16
  | .read _ _ offset maxLen => offset < 2 ^ 16 ∧ maxLen < 2 ^ 16
  | .write _ _ _ offset data => offset < 2 ^ 16 ∧ data.length < 2 ^ 16
  | _ => True

instance : (i : ValueEvent) → Decidable i.Possible
  | .setVal _ _ _ data => inferInstanceAs (Decidable (data.length < 2 ^ 16))
  | .read _ _ offset maxLen => inferInstanceAs (Decidable (offset < 2 ^ 16 ∧ maxLen < 2 ^ 16))
  | .write _ _ _ offset data =>
    inferInstanceAs (Decidable (offset < 2 ^ 16 ∧ data.length < 2 ^ 16))
  | .addService _ _ _ => .isTrue trivial
  | .svcAddRsp _ _ => .isTrue trivial
  | .connected _ _ _ _ _ => .isTrue trivial
  | .disconnected _ => .isTrue trivial
  | .deinit => .isTrue trivial

/-- One event. -/
def valueStep (behind : ℕ → UInt8) (i : ValueEvent) (e : AdpEnv) : Option AdpEnv :=
  if i.Possible then some (i.handle behind e).env else none

/-! ### What is to be so -/

/-- The current length is not above the largest one, for which there is room. -/
structure AttrNode.Fits (x : AttrNode) : Prop where
  room : x.value.length = x.maxValueLen
  curr : x.currValueLen ≤ x.maxValueLen
  word : x.maxValueLen < 2 ^ 16

/-- All nodes, and those to come, are so. -/
structure AdpEnv.Fits (e : AdpEnv) : Prop where
  nodes : ∀ d ∈ e.connDevList, ∀ x ∈ d.attrs, x.Fits
  /-- The lengths that the nodes to come are given. -/
  lens : ∀ a ∈ e.srvAttrList, ∀ y ∈ a.attrs, y.2 < 2 ^ 16

/-- What is read lies in the value as it is, and what is written in its room. -/
def ValueCopy.Inside (k : ValueCopy) : Prop :=
  ∀ p, k.first ≤ p → p < k.first + k.len →
    p < if k.write then k.node.maxValueLen else k.node.currValueLen

/-- **An event stays inside the values**; a read gets what the value is from the offset on, as far as
it goes and not more than was asked for; and what is refused changes nothing. -/
structure StaysInside (behind : ℕ → UInt8) (e : AdpEnv) (i : ValueEvent) : Prop where
  copies : ∀ k ∈ (i.handle behind e).copies, k.Inside
  refused : (i.handle behind e).status ≠ .noError → (i.handle behind e).env = e
  reply : ∀ conidx handle offset maxLen, i = .read conidx handle offset maxLen →
    ∀ x ∈ e.attrOf conidx handle, ∃ r, (i.handle behind e).reply = some r ∧ r.valLen ≤ maxLen ∧
      r.val.length = r.valLen ∧ r.val = (x.contents.drop offset).take maxLen

/-- A read begins inside the value, or asks for nothing. -/
def ReadsInside (e : AdpEnv) : ValueEvent → Prop
  | .read conidx handle offset maxLen =>
    ∀ x ∈ e.attrOf conidx handle, offset ≤ x.currValueLen ∨ maxLen = 0
  | _ => True

instance (e : AdpEnv) : (i : ValueEvent) → Decidable (ReadsInside e i)
  | .read conidx handle offset maxLen =>
    inferInstanceAs (Decidable (∀ x ∈ e.attrOf conidx handle, offset ≤ x.currValueLen ∨ maxLen = 0))
  | .addService _ _ _ => .isTrue trivial
  | .svcAddRsp _ _ => .isTrue trivial
  | .connected _ _ _ _ _ => .isTrue trivial
  | .disconnected _ => .isTrue trivial
  | .deinit => .isTrue trivial
  | .setVal _ _ _ _ => .isTrue trivial
  | .write _ _ _ _ _ => .isTrue trivial

/-! ### Reads -/

section Reads

variable {behind : ℕ → UInt8} {offset maxLen : ℕ} {x : AttrNode}

theorem bleMin_eq (a b : ℕ) : bleMin a b = min a b := by
  rw [bleMin]
  split_ifs <;> omega

/-- The number of bytes read: as many as there are from the offset on, and as many as asked for when
the read begins behind the value. -/
theorem AttrNode.Fits.valLen_read (hx : x.Fits) (hoffset : offset < 2 ^ 16)
    (hmaxLen : maxLen < 2 ^ 16) :
    (x.read behind offset maxLen).valLen =
      if offset ≤ x.currValueLen then min maxLen (x.currValueLen - offset) else maxLen := by
  have hword := hx.word
  have hcurr := hx.curr
  rw [AttrNode.read, bleMin_eq]
  dsimp only
  split_ifs <;> omega

/-- A read that begins inside the value, or asks for nothing, gets the value from the offset on. -/
theorem AttrNode.Fits.val_read (hx : x.Fits) (hoffset : offset < 2 ^ 16)
    (hmaxLen : maxLen < 2 ^ 16) (hinside : offset ≤ x.currValueLen ∨ maxLen = 0) :
    (x.read behind offset maxLen).val = (x.contents.drop offset).take maxLen := by
  have hlen : (x.read behind offset maxLen).valLen = min maxLen (x.currValueLen - offset) := by
    rw [hx.valLen_read hoffset hmaxLen]
    split_ifs <;> omega
  have hroom := hx.room
  have hcurr := hx.curr
  have hval : (x.read behind offset maxLen).val =
      (List.range (x.read behind offset maxLen).valLen).map fun i =>
        (x.value[offset + i]?).getD (behind (offset + i)) := rfl
  rw [hval, hlen, AttrNode.contents]
  refine ext_getElem (by simp; omega) fun i hi hi' => ?_
  simp only [length_map, length_range] at hi
  simp only [getElem_map, getElem_range, getElem_take, getElem_drop]
  rw [List.getElem?_eq_getElem (by omega), Option.getD_some]

/-- **A read stays inside the value** exactly when it begins there or asks for nothing. -/
theorem AttrNode.Fits.read_inside_iff (hx : x.Fits) (hoffset : offset < 2 ^ 16)
    (hmaxLen : maxLen < 2 ^ 16) :
    ValueCopy.Inside ⟨x, false, offset, (x.read behind offset maxLen).valLen⟩ ↔
      offset ≤ x.currValueLen ∨ maxLen = 0 := by
  rw [hx.valLen_read hoffset hmaxLen, ValueCopy.Inside]
  constructor
  · intro hinside
    by_contra hbehind
    rw [not_or, Nat.not_le] at hbehind
    have hlt : offset < x.currValueLen :=
      hinside offset (Nat.le_refl _) (by rw [if_neg (Nat.not_le.mpr hbehind.1)]; dsimp only; omega)
    omega
  · intro hbegin p hfirst hp
    change p < x.currValueLen
    dsimp only at hfirst hp
    split_ifs at hp <;> omega

end Reads

/-! ### Nodes -/

/-- Every characteristic is given the same length. -/
theorem attrHandleTuple_len {svcHandle n : ℕ} {cs : List CharParams} {y : ℕ × ℕ}
    (hy : y ∈ attrHandleTuple svcHandle n cs) : y.2 = charValueLen := by
  induction cs generalizing n with
  | nil => cases hy
  | cons c cs ih =>
    rcases mem_cons.mp hy with rfl | hy
    · rfl
    · exact ih hy

namespace AdpEnv.Fits

variable {e : AdpEnv} {c h : ℕ} {x : AttrNode} {i : ValueEvent}

theorem findDev (he : e.Fits) {d : ConnDev} (hd : e.findDev c = some d) : ∀ x ∈ d.attrs, x.Fits :=
  he.nodes d (mem_of_find?_eq_some hd)

theorem findAttr (he : e.Fits) (hx : e.findAttr c h = some x) : x.Fits := by
  rw [AdpEnv.findAttr, Option.bind_eq_some_iff] at hx
  obtain ⟨d, hd, hx⟩ := hx
  exact he.findDev hd x (mem_of_find?_eq_some hx)

theorem attrOf (he : e.Fits) (hx : e.attrOf c h = some x) : x.Fits := by
  rw [AdpEnv.attrOf, Option.bind_eq_some_iff] at hx
  obtain ⟨d, -, hx⟩ := hx
  exact he.findAttr hx

/-- A device is changed. -/
theorem updateDev (he : e.Fits) {f : ConnDev → ConnDev}
    (hf : ∀ d, e.findDev c = some d → ∀ x ∈ (f d).attrs, x.Fits) : (e.updateDev c f).Fits where
  nodes d hd := by
    rcases Table.mem_update_found hd with hd | ⟨d', hd', rfl⟩
    · exact he.nodes d hd
    · exact hf d' hd'
  lens := he.lens

/-- The node that is found is changed. -/
theorem updateAttr (he : e.Fits) {f : AttrNode → AttrNode}
    (hf : ∀ x, e.findAttr c h = some x → (f x).Fits) :
    (e.updateDev c fun d => d.updateAttr h f).Fits := by
  refine he.updateDev fun d hd x hx => ?_
  rcases Table.mem_update_found hx with hx | ⟨y, hy, rfl⟩
  · exact he.findDev hd x hx
  · refine hf y ?_
    rw [AdpEnv.findAttr, hd]
    exact hy

/-- Nodes and blocks that are counted do not matter. -/
theorem counters (he : e.Fits) (allocs : ℕ) (freed : List ℕ) :
    AdpEnv.Fits { e with allocs := allocs, freed := freed } := ⟨he.nodes, he.lens⟩

/-- A value is set in place. -/
theorem setValue (hx : x.Fits) (hdata : data.length ≤ x.maxValueLen) :
    (x.setValue data).Fits := by
  have hroom := hx.room
  refine ⟨?_, hdata, hx.word⟩
  simp only [AttrNode.setValue, length_append, length_drop]
  omega

/-- A value is written in place. -/
theorem write (hx : x.Fits) {offset : ℕ}
    (hdata : data.length + offset ≤ x.maxValueLen) : (x.write offset data).Fits := by
  have hroom := hx.room
  refine ⟨?_, ?_, hx.word⟩
  · simp only [AttrNode.write, length_append, length_take, length_drop]
    omega
  · simp only [AttrNode.write]
    omega

theorem valueSet (he : e.Fits) (hdata : data.length < 2 ^ 16) :
    (e.valueSet c h data).Fits := by
  rw [AdpEnv.valueSet]
  cases hx : e.findAttr c h with
  | none => exact he
  | some x =>
    dsimp only
    split_ifs with hlarge
    · refine (he.updateDev fun d hd y hy => ?_).counters _ _
      rcases mem_append.mp hy with hy | hy
      · exact he.findDev hd y (mem_of_mem_eraseP hy)
      · rw [mem_singleton.mp hy]
        exact ⟨rfl, Nat.le_refl _, hdata⟩
    · refine he.updateAttr fun y hy => ?_
      rw [hx] at hy
      cases hy
      exact setValue (he.findAttr hx) (Nat.not_lt.mp hlarge)

theorem setVal (he : e.Fits) {mem : Bool} (hdata : data.length < 2 ^ 16) :
    (e.setVal mem c h data).env.Fits := by
  rw [AdpEnv.setVal]
  cases hx : e.findAttr c h with
  | none => exact he
  | some x =>
    dsimp only
    split_ifs with hlarge
    · refine he.updateAttr fun y hy => ?_
      rw [hx] at hy
      cases hy
      exact setValue (he.findAttr hx) (length_take_le _ _)
    · exact he.valueSet hdata

theorem peerWrite (he : e.Fits) (conidx svcId handle offset : ℕ) (data : List UInt8) :
    (e.peerWrite conidx svcId handle offset data).Fits := by
  rw [AdpEnv.peerWrite]
  split
  · exact he
  · split_ifs
    · exact he
    · split
      · exact he
      · rename_i x hx
        split_ifs with hlong
        · exact he
        · refine he.updateAttr fun y hy => ?_
          rw [hx] at hy
          cases hy
          exact write (he.findAttr hx) (Nat.not_lt.mp hlong)

/-- The lengths that new nodes are given are those of the services. -/
theorem attrsFrom_lens (he : e.Fits) {i : ℕ} {y : AttrInfo × ℕ × ℕ}
    (hy : y ∈ attrsFrom i e.srvAttrList) : y.2.2 < 2 ^ 16 := by
  have hlens := he.lens
  generalize e.srvAttrList = l at hy hlens
  induction l generalizing i with
  | nil => cases hy
  | cons a l ih =>
    rcases mem_append.mp hy with hy | hy
    · obtain ⟨z, hz, rfl⟩ := mem_map.mp hy
      exact hlens a mem_cons_self z (mem_of_mem_drop hz)
    · exact ih hy fun b hb => hlens b (mem_cons_of_mem a hb)

theorem allocAttrsMem (he : e.Fits) (mem : ℕ → Bool) : (e.allocAttrsMem mem c).Fits := by
  refine (he.updateDev (c := c) fun d hd x hx => ?_).counters _ _
  rcases mem_append.mp hx with hx | hx
  · exact he.findDev hd x hx
  · obtain ⟨y, hy, rfl⟩ := mem_map.mp hx
    have hword := he.attrsFrom_lens (fst_mem_of_mem_zipIdx (mem_filter.mp hy).1)
    exact ⟨length_replicate, Nat.le_refl _, hword⟩

theorem linkUp (he : e.Fits) (mem : ℕ → Bool) (conidx : ℕ) (role : BleRole) :
    (e.linkUp mem c conidx role).Fits := by
  have hupdate := he.updateDev (c := c) (f := fun d => { d with conidx := conidx, role := role })
    fun d hd => he.findDev (d := d) hd
  rw [AdpEnv.linkUp]
  split_ifs
  · exact hupdate.allocAttrsMem mem
  · exact hupdate

theorem connectedMem (he : e.Fits) (memDev : Bool) (mem : ℕ → Bool) (conidx : ℕ)
    (role : BleRole) : (e.connectedMem memDev mem c conidx role).Fits := by
  rw [AdpEnv.connectedMem]
  split
  · exact he.linkUp mem conidx role
  · split_ifs
    · have hnew : AdpEnv.Fits
          { e with connDevList := e.connDevList ++ [ConnDev.mk c 0 .client []] } := by
        refine ⟨fun d hd => ?_, he.lens⟩
        rcases mem_append.mp hd with hd | hd
        · exact he.nodes d hd
        · rw [mem_singleton.mp hd]
          exact nofun
      exact hnew.linkUp mem conidx role
    · exact he

theorem disconnected (he : e.Fits) : (e.disconnected c).Fits := by
  rw [AdpEnv.disconnected]
  split
  · exact he
  · exact ⟨fun d hd => he.nodes d (mem_of_mem_eraseP hd), he.lens⟩

theorem addService (he : e.Fits) (svc : ServiceParams) (sent : Bool) (result : Option ℕ) :
    (e.addService svc sent result).Fits := by
  have hnext : ∀ next, AdpEnv.Fits { e with srvAddHandle := next } := fun _ => ⟨he.nodes, he.lens⟩
  rw [AdpEnv.addService]
  split
  · exact hnext _
  · split_ifs
    · split
      · exact hnext _
      · refine ⟨he.nodes, fun a ha y hy => ?_⟩
        rcases mem_append.mp ha with ha | ha
        · exact he.lens a ha y hy
        · rw [mem_singleton.mp ha] at hy
          rw [attrHandleTuple_len hy]
          decide
    · exact hnext _

theorem svcAddRsp (he : e.Fits) (svcId : ℕ) (ok : Bool) : (e.svcAddRsp svcId ok).Fits := by
  rw [AdpEnv.svcAddRsp]
  split_ifs
  · exact he
  · exact ⟨he.nodes, fun a ha => he.lens a (mem_of_mem_eraseP ha)⟩

/-- Every event keeps the lengths. -/
theorem step (he : e.Fits) {behind : ℕ → UInt8} {u : AdpEnv} (hi : valueStep behind i e = some u) :
    u.Fits := by
  rw [valueStep] at hi
  split_ifs at hi with hpossible
  obtain rfl := Option.some.inj hi
  cases i with
  | addService svc sent result => exact he.addService svc sent result
  | svcAddRsp svcId ok => exact he.svcAddRsp svcId ok
  | connected memDev mem connHdl conidx role => exact he.connectedMem memDev mem conidx role
  | disconnected connHdl => exact he.disconnected
  | deinit => exact ⟨nofun, nofun⟩
  | setVal mem connHandle charHandle data => exact he.setVal hpossible
  | read conidx handle offset maxLen =>
    rw [ValueEvent.handle, AdpEnv.rwRead]
    split <;> exact he
  | write conidx svcId handle offset data =>
    have hwrite := he.peerWrite conidx svcId handle offset data
    rw [ValueEvent.handle, AdpEnv.rwWrite]
    repeat' split
    all_goals exact hwrite

end AdpEnv.Fits

/-! ### Events -/

section Events

variable {behind : ℕ → UInt8} {e u : AdpEnv} {i : ValueEvent}

/-- A write goes to the room of the node, or changes nothing. -/
theorem staysInside_write (conidx svcId handle offset : ℕ) (data : List UInt8) :
    StaysInside behind e (.write conidx svcId handle offset data) := by
  refine ⟨?_, ?_, nofun⟩ <;> rw [ValueEvent.handle, AdpEnv.rwWrite]
  · split
    · exact nofun
    · split_ifs
      · exact nofun
      · split
        · exact nofun
        · rename_i x hx
          split_ifs with hlong
          · exact nofun
          · intro k hk p hfirst hp
            rw [mem_singleton.mp hk] at hfirst hp ⊢
            change p < x.maxValueLen
            dsimp only at hfirst hp
            omega
  · cases hd : e.findConidx conidx with
    | none => simp [AdpEnv.peerWrite, hd]
    | some d =>
      cases hcccd : e.isCccd svcId handle with
      | true => simp
      | false =>
        cases hx : e.findAttr d.connHandle handle with
        | none => simp [AdpEnv.peerWrite, hd, hcccd, hx]
        | some x =>
          by_cases hlong : x.maxValueLen < data.length + offset
          · simp [AdpEnv.peerWrite, hd, hcccd, hx, hlong]
          · simp [hx, hlong]

theorem staysInside_setVal (mem : Bool) (connHandle charHandle : ℕ) (data : List UInt8) :
    StaysInside behind e (.setVal mem connHandle charHandle data) := by
  refine ⟨?_, ?_, nofun⟩ <;> rw [ValueEvent.handle, AdpEnv.setVal]
  · split
    · exact nofun
    · rename_i x hx
      split_ifs
      all_goals
        intro k hk p hfirst hp
        rw [mem_singleton.mp hk] at hfirst hp ⊢
        dsimp only at hfirst hp
        simp only [if_true]
        omega
  · split
    · intro h; exact absurd rfl h
    · split_ifs <;> exact fun h => absurd rfl h

/-- A read stays inside the values when it begins inside. -/
theorem staysInside_read_iff (he : e.Fits) {conidx handle offset maxLen : ℕ}
    (hoffset : offset < 2 ^ 16) (hmaxLen : maxLen < 2 ^ 16) :
    StaysInside behind e (.read conidx handle offset maxLen) ↔
      ReadsInside e (.read conidx handle offset maxLen) := by
  cases hx : e.attrOf conidx handle with
  | none =>
    refine iff_of_true ⟨?_, ?_, ?_⟩ ?_
    · rw [ValueEvent.handle, AdpEnv.rwRead, hx]
      exact nofun
    · rw [ValueEvent.handle, AdpEnv.rwRead, hx]
      exact fun _ => rfl
    · intro _ _ _ _ hi
      cases hi
      rw [hx]
      exact nofun
    · rw [ReadsInside, hx]
      exact nofun
  | some x =>
    have hfits := he.attrOf hx
    have hiff : ValueCopy.Inside ⟨x, false, offset, (x.read behind offset maxLen).valLen⟩ ↔
        offset ≤ x.currValueLen ∨ maxLen = 0 := hfits.read_inside_iff hoffset hmaxLen
    rw [ReadsInside, hx]
    simp only [Option.mem_some_iff, forall_eq']
    rw [← hiff]
    constructor
    · intro hstays
      refine hstays.copies _ ?_
      rw [ValueEvent.handle, AdpEnv.rwRead, hx]
      exact mem_singleton_self _
    · intro hinside
      refine ⟨?_, ?_, ?_⟩
      · rw [ValueEvent.handle, AdpEnv.rwRead, hx]
        intro k hk
        rw [mem_singleton.mp hk]
        exact hinside
      · rw [ValueEvent.handle, AdpEnv.rwRead, hx]
        exact fun h => absurd rfl h
      · intro _ _ _ _ hi y hy
        cases hi
        rw [hx] at hy
        cases hy
        rw [ValueEvent.handle, AdpEnv.rwRead, hx]
        refine ⟨_, rfl, ?_, ?_, ?_⟩
        · rw [hfits.valLen_read hoffset hmaxLen]
          split_ifs <;> omega
        · simp only [AttrNode.read, length_map, length_range]
        · exact hfits.val_read hoffset hmaxLen (hiff.mp hinside)

/-- **An event stays inside the values** unless it is a read that begins behind one. -/
theorem staysInside_iff (he : e.Fits) (hi : valueStep behind i e = some u) :
    StaysInside behind e i ↔ ReadsInside e i := by
  rw [valueStep] at hi
  split_ifs at hi with hpossible
  cases i with
  | read conidx handle offset maxLen => exact staysInside_read_iff he hpossible.1 hpossible.2
  | write conidx svcId handle offset data => exact iff_of_true (staysInside_write ..) trivial
  | setVal mem connHandle charHandle data => exact iff_of_true (staysInside_setVal ..) trivial
  | addService _ _ _ | svcAddRsp _ _ | connected _ _ _ _ _ | disconnected _ | deinit =>
    exact iff_of_true ⟨nofun, fun h => absurd rfl h, nofun⟩ trivial

/-- **Everything stays inside the values** in exactly the runs in which every read begins inside the
value, or asks for nothing. -/
theorem gattValues_iff (behind : ℕ → UInt8) {s : AdpEnv} (is : List ValueEvent)
    (h : Machine.run (valueStep behind) is adpEnvInit = some s) :
    Machine.Always (valueStep behind) AdpEnv.Fits is adpEnvInit ∧
        Machine.Meets (valueStep behind) (StaysInside behind) is adpEnvInit ↔
      Machine.Meets (valueStep behind) ReadsInside is adpEnvInit := by
  have hinit : adpEnvInit.Fits := ⟨nofun, nofun⟩
  rw [Machine.meets_congr h hinit fun he hi => ⟨he.step hi, staysInside_iff he hi⟩]
  exact and_iff_right (Machine.always_of_step hinit fun he hi => he.step hi)

/-- A service is added, a link comes up, the value is written, read to its end in two parts and set
to something shorter, for which another read begins at the end. -/
def valuesRun : List ValueEvent :=
  [.addService (oneCharService 0xFFF1) true (some 1), .connected true (fun _ => true) 5 0 .server,
    .write 0 1 0x102 0 [1, 2, 3], .read 0 0x102 0 2, .read 0 0x102 2 2, .setVal true 5 0x102 [4],
    .read 0 0x102 1 20]

theorem gattValues_iff_valuesRun :
    Machine.Always (valueStep fun _ => 0) AdpEnv.Fits valuesRun adpEnvInit ∧
      Machine.Meets (valueStep fun _ => 0) (StaysInside fun _ => 0) valuesRun adpEnvInit := by
  obtain ⟨s, hs⟩ : ∃ s, Machine.run (valueStep fun _ => 0) valuesRun adpEnvInit = some s := ⟨_, rfl⟩
  exact (gattValues_iff (fun _ => 0) valuesRun hs).mpr (by decide +kernel)

/-- The value gets shorter while the other side reads it, which goes on behind the end. -/
def longReadRun : List ValueEvent :=
  [.addService (oneCharService 0xFFF1) true (some 1), .connected true (fun _ => true) 5 0 .server,
    .read 0 0x102 0 22, .setVal true 5 0x102 [1, 2], .read 0 0x102 510 22]

/-- The second part is 22 bytes long, none of which belongs to the value, and 20 of which stand behind
the node. -/
theorem not_gattValues :
    ¬(∀ (behind : ℕ → UInt8) (is : List ValueEvent),
      (Machine.run (valueStep behind) is adpEnvInit).isSome →
      Machine.Always (valueStep behind) AdpEnv.Fits is adpEnvInit ∧
        Machine.Meets (valueStep behind) (StaysInside behind) is adpEnvInit) ∧
    ∃ s, Machine.run (valueStep fun _ => 7) longReadRun adpEnvInit = some s ∧
      ((s.attrOf 0 0x102).map AttrNode.contents) = some [1, 2] ∧
      ((ValueEvent.handle (fun _ => 7) (.read 0 0x102 510 22) s).reply.map ReadReply.val) =
        some ([0, 0] ++ List.replicate 20 7) := by
  refine ⟨fun hall => ?_, _, rfl, by decide +kernel, by decide +kernel⟩
  obtain ⟨s, hs⟩ : ∃ s, Machine.run (valueStep fun _ => 0) longReadRun adpEnvInit = some s :=
    ⟨_, rfl⟩
  have hinit : adpEnvInit.Fits := ⟨nofun, nofun⟩
  have hmeets := (Machine.meets_congr hs hinit fun he hi => ⟨he.step hi, staysInside_iff he hi⟩).mp
    (hall (fun _ => 0) longReadRun (by rw [hs]; rfl)).2
  exact absurd hmeets (by decide +kernel)

end Events

end Ble

end Gd32
