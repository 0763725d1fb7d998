import Gd32Firmware.Nvds.Env

/-!
# Elements: finding, deleting and reading them

`nvds_flash.c`, from `element_find` to `element_compare`. An element is looked for by walking
the entries of the used pages, from header to header: a header that does not fit is skipped
together with the entries that its length says belong to it. Entry indices are of type
`uint8_t`, so on a damaged page a length can send a walk back to an index it has already
visited, and then it never ends; the walks therefore carry a number of steps after which they
are known to go in circles.
-/

namespace Gd32.Nvds

open NorFlash LittleEndian

/-- A value of type `uint8_t`. -/
def u8 (n : ℕ) : ℕ := n % 256

theorem u8_of_lt {n : ℕ} (h : n < 256) : u8 n = n := Nat.mod_eq_of_lt h

section Find

variable (rom : NvdsRom)

/-! ### `element_find` -/

/-- The tests `element_find` makes on an entry in use. -/
def elementHit (ns : ℕ) (key : CString) (type : ElementType) (entry : Entry) : Bool :=
  decide (ns = Entry.ns entry) && decide (key.bytes = Entry.key entry) &&
    (decide (type = .any) || decide (Entry.type entry = type)) &&
    decide (Entry.crc entry = elementHeaderCrc32Calc entry)

/-- The walk over the entries of a page from index `idx` on; there are 256 indices, so a walk
of more steps never ends. -/
def entryWalk (env : FlashEnv) (k ns : ℕ) (key : CString) (type : ElementType) :
    ℕ → ℕ → Option (Except NvdsErr (Option ℕ))
  | 0, _ => none
  | n + 1, idx =>
    if entryCountPerPage ≤ idx then some (.ok none)
    else
      match entryStateGet (env.pages k).entryStates idx with
      | .error e => some (.error e)
      | .ok .free => some (.ok none)
      | .ok state =>
        match entryRead rom env k idx with
        | .error e => some (.error e)
        | .ok entry =>
          if state = .used ∧ elementHit ns key type entry then some (.ok (some idx))
          else entryWalk env k ns key type n (u8 (idx + 1 + Entry.dataCnt entry))

/-- Pages are searched when they are active or full. -/
def pageSearched (p : PageEnv) : Bool :=
  decide (p.header.state = pageActive) || decide (p.header.state = pageFull)

/-- The walk over pages, the first one that is searched from entry `start` on. -/
def pageWalk (env : FlashEnv) (ns : ℕ) (key : CString) (type : ElementType) :
    List ℕ → ℕ → Option (Except NvdsErr (ℕ × ℕ))
  | [], _ => some (.error .notFound)
  | k :: ks, start =>
    if pageSearched (env.pages k) then
      match entryWalk rom env k ns key type 256 start with
      | none => none
      | some (.error e) => some (.error e)
      | some (.ok (some idx)) => some (.ok (k, idx))
      | some (.ok none) => pageWalk env ns key type ks 0
    else pageWalk env ns key type ks start

/-- `element_find`, from the page `pageStart` when that is a used one, and from entry `start`
of it: the page and the index of the first element that fits. -/
def elementFind (env : FlashEnv) (ns : ℕ) (key : CString) (pageStart : Option ℕ) (start : ℕ)
    (type : ElementType) : Option (Except NvdsErr (ℕ × ℕ)) :=
  match pageStart with
  | none => pageWalk rom env ns key type env.pageUsed start
  | some p =>
    match env.pageUsed.dropWhile (· ≠ p) with
    | [] => pageWalk rom env ns key type env.pageUsed start
    | k :: ks => pageWalk rom env ns key type (k :: ks) start

def dataElementFind (env : FlashEnv) (ns : ℕ) (key : CString) : Option (Except NvdsErr Unit) :=
  (elementFind rom env ns key none 0 .any).map fun r => r.map fun _ => ()

/-! ### Deleting -/

/-- The entries of an element are given up, and taken off the count of its page. -/
def elementDrop (k idx cnt : ℕ) : NvdsM Unit := do
  entryStateRangeAlter rom k idx (u8 (idx + cnt)) .updated
  NvdsM.modify fun env => env.setPage k (subUsed (env.pages k) (cnt + 1))

/-- The loop over the fragments of a bulk element, at the end of `bulk_element_del` and of a
failing `bulk_element_put`. Every round gives up an entry in use, so there are no more rounds
than entries. -/
def bulkFragsDel (ns : ℕ) (key : CString) : ℕ → Option ℕ → ℕ → NvdsM Unit
  | 0, _, _ => fun _ => none
  | n + 1, pageStart, start => do
    let found ← NvdsM.attempt
      (NvdsM.search fun env => elementFind rom env ns key pageStart start .bulk)
    match found with
    | .error .notFound => pure ()
    | .error e => NvdsM.throw e
    | .ok (k, idx) => do
      let entry ← NvdsM.look fun env => entryRead rom env k idx
      elementDrop rom k idx (entriesOf (Entry.len entry))
      bulkFragsDel ns key n (some k) (u8 (idx + (entriesOf (Entry.len entry) + 1)))

/-- The entries of the used pages. -/
def FlashEnv.entryTotal (env : FlashEnv) : ℕ := entryCountPerPage * env.pageUsed.length

def bulkElementDel (ns : ℕ) (key : CString) : NvdsM Unit := do
  let found ← NvdsM.attempt
    (NvdsM.search fun env => elementFind rom env ns key none 0 .bulkinfo)
  match found with
  | .error .notFound => pure ()
  | .error e => NvdsM.throw e
  | .ok (k, idx) => do
    elementDrop rom k idx 0
    let env ← NvdsM.get
    bulkFragsDel rom ns key (env.entryTotal + 1) none 0

def dataElementDel (ns : ℕ) (key : CString) : NvdsM Unit := do
  let found ← NvdsM.search fun env => elementFind rom env ns key none 0 .any
  let entry ← NvdsM.look fun env => entryRead rom env found.1 found.2
  match Entry.type entry with
  | .bulkinfo => bulkElementDel rom ns key
  | .bulk => bulkElementDel rom ns key
  | .small => elementDrop rom found.1 found.2 0
  | .middle => elementDrop rom found.1 found.2 (entriesOf (Entry.len entry))
  | _ => NvdsM.throw .fail

/-! ### Reading -/

/-- What a read leaves in the caller's hands. -/
structure GetOut where
  ret : Except NvdsErr Unit
  /-- The value written to `*bufsize`, if one was. -/
  bufsize : Option ℕ
  /-- The bytes written to the buffer, from its start. -/
  written : List UInt8

/-- The loop that copies the data entries up to index `last` out of a page: the bytes copied,
and the code of a read that failed. -/
def copyData (env : FlashEnv) (k last : ℕ) :
    ℕ → ℕ → ℕ → Option (List UInt8 × Except NvdsErr Unit)
  | 0, _, _ => none
  | n + 1, idx, remain =>
    if last < idx then some ([], .ok ())
    else
      match entryRead rom env k idx with
      | .error e => some ([], .error e)
      | .ok entry =>
        (copyData env k last n (u8 (idx + 1)) (remain - min remain entrySize)).map fun r =>
          (entry.take (min remain entrySize) ++ r.1, r.2)

/-- The loop that looks for the fragment with a number; `none` inside when there is none. -/
def bulkFragFind (env : FlashEnv) (ns : ℕ) (key : CString) (frag : ℕ) :
    ℕ → Option ℕ → ℕ → Option (Except NvdsErr (Option (ℕ × ℕ × Entry)))
  | 0, _, _ => none
  | n + 1, pageStart, start =>
    match elementFind rom env ns key pageStart start .bulk with
    | none => none
    | some (.error .notFound) => some (.ok none)
    | some (.error e) => some (.error e)
    | some (.ok (k, idx)) =>
      match entryRead rom env k idx with
      | .error e => some (.error e)
      | .ok entry =>
        if Entry.fragno entry = frag then some (.ok (some (k, idx, entry)))
        else
          bulkFragFind env ns key frag n (some k)
            (u8 (idx + 1 + entriesOf (Entry.len entry)))

/-- The pairs of a used page and an index: a search of more rounds never ends. -/
def FlashEnv.spots (env : FlashEnv) : ℕ := 256 * env.pageUsed.length

/-- The loop over the fragments in `bulk_element_get`; one that is not found is passed over. -/
def bulkFragsGet (env : FlashEnv) (ns : ℕ) (key : CString) :
    ℕ → ℕ → Option (List UInt8 × Except NvdsErr Unit)
  | 0, _ => some ([], .ok ())
  | n + 1, frag =>
    match bulkFragFind rom env ns key frag (env.spots + 1) none 0 with
    | none => none
    | some (.error e) => some ([], .error e)
    | some (.ok none) => bulkFragsGet env ns key n (frag + 1)
    | some (.ok (some (k, idx, entry))) =>
      match copyData rom env k (u8 (idx + entriesOf (Entry.len entry))) 257 (u8 (idx + 1))
          (Entry.len entry) with
      | none => none
      | some (w, .error e) => some (w, .error e)
      | some (w, .ok ()) => (bulkFragsGet env ns key n (frag + 1)).map fun r => (w ++ r.1, r.2)

/-- The size check in front of a read: `buf` is the size of the caller's buffer, `none` when
it only asks for the size of the value. -/
def sizeCheck (buf : Option ℕ) (size : ℕ) (fill : Option (List UInt8 × Except NvdsErr Unit)) :
    Option GetOut :=
  match buf with
  | none => some ⟨.ok (), some size, []⟩
  | some n =>
    if n < size then some ⟨.error .invalidLength, some size, []⟩
    else fill.map fun r => ⟨r.2, some size, r.1⟩

def bulkElementGet (env : FlashEnv) (ns : ℕ) (key : CString) (buf : Option ℕ) : Option GetOut :=
  match elementFind rom env ns key none 0 .bulkinfo with
  | none => none
  | some (.error e) => some ⟨.error e, none, []⟩
  | some (.ok (k, idx)) =>
    match entryRead rom env k idx with
    | .error e => some ⟨.error e, none, []⟩
    | .ok entry =>
      sizeCheck buf (Entry.bulksize entry) (bulkFragsGet rom env ns key (Entry.len entry) 0)

/-- The part of `data_element_get` behind the size check. -/
def elementFill (env : FlashEnv) (k idx : ℕ) (entry : Entry) :
    Option (List UInt8 × Except NvdsErr Unit) :=
  match Entry.type entry with
  | .small => some ((Entry.val entry).take (Entry.len entry), .ok ())
  | .middle =>
    (copyData rom env k (u8 (idx + entriesOf (Entry.len entry))) 257 (u8 (idx + 1))
        (Entry.len entry)).map fun r =>
      (r.1, match r.2 with
        | .error e => .error e
        | .ok () =>
          if Entry.datacrc32 entry ≠ elementDataCrc32Calc r.1 then .error .notFound else .ok ())
  | _ => some ([], .ok ())

def dataElementGet (env : FlashEnv) (ns : ℕ) (key : CString) (buf : Option ℕ) : Option GetOut :=
  match elementFind rom env ns key none 0 .any with
  | none => none
  | some (.error e) => some ⟨.error e, none, []⟩
  | some (.ok (k, idx)) =>
    match entryRead rom env k idx with
    | .error e => some ⟨.error e, none, []⟩
    | .ok entry =>
      if Entry.type entry = .bulk ∨ Entry.type entry = .bulkinfo then
        bulkElementGet rom env ns key buf
      else sizeCheck buf (Entry.len entry) (elementFill rom env k idx entry)

/-! ### Comparing -/

/-- The loop that compares the data entries up to index `last` with the buffer. -/
def compareData (env : FlashEnv) (k last : ℕ) : ℕ → ℕ → ℕ → List UInt8 → Option Bool
  | 0, _, _, _ => none
  | n + 1, idx, remain, dst =>
    if last < idx then some true
    else
      match entryRead rom env k idx with
      | .error _ => some false
      | .ok entry =>
        if dst.take (min remain entrySize) ≠ entry.take (min remain entrySize) then some false
        else
          compareData env k last n (u8 (idx + 1)) (remain - min remain entrySize)
            (dst.drop (min remain entrySize))

/-- The loop over the fragments in `bulk_element_compare`. -/
def bulkFragsCompare (env : FlashEnv) (ns : ℕ) (key : CString) :
    ℕ → ℕ → List UInt8 → Option Bool
  | 0, _, _ => some true
  | n + 1, frag, dst =>
    match bulkFragFind rom env ns key frag (env.spots + 1) none 0 with
    | none => none
    | some (.error _) => some false
    | some (.ok none) => bulkFragsCompare env ns key n (frag + 1) dst
    | some (.ok (some (k, idx, entry))) =>
      match compareData rom env k (u8 (idx + entriesOf (Entry.len entry))) 257 (u8 (idx + 1))
          (Entry.len entry) dst with
      | none => none
      | some false => some false
      | some true => bulkFragsCompare env ns key n (frag + 1) (dst.drop (Entry.len entry))

def bulkElementCompare (env : FlashEnv) (ns : ℕ) (key : CString) (buf : List UInt8) :
    Option Bool :=
  match elementFind rom env ns key none 0 .bulkinfo with
  | none => none
  | some (.error .notFound) => some true
  | some (.error _) => some false
  | some (.ok (k, idx)) =>
    match entryRead rom env k idx with
    | .error _ => some false
    | .ok entry =>
      if Entry.bulksize entry ≠ buf.length then some false
      else bulkFragsCompare rom env ns key (Entry.len entry) 0 buf

/-- The part of `element_compare` behind the check of the size. -/
def elementSame (env : FlashEnv) (ns : ℕ) (key : CString) (buf : List UInt8) : Option Bool :=
  match elementFind rom env ns key none 0 .any with
  | none => none
  | some (.error _) => some false
  | some (.ok (k, idx)) =>
    match entryRead rom env k idx with
    | .error _ => some false
    | .ok entry =>
      match Entry.type entry with
      | .small =>
        some (decide (Entry.len entry = buf.length) &&
          decide (buf.take (Entry.len entry) = (Entry.val entry).take (Entry.len entry)))
      | .middle =>
        if Entry.len entry ≠ buf.length then some false
        else
          compareData rom env k (u8 (idx + entriesOf (Entry.len entry))) 257 (u8 (idx + 1))
            (Entry.len entry) buf
      | .bulk => bulkElementCompare rom env ns key buf
      | .bulkinfo => bulkElementCompare rom env ns key buf
      | _ => some false

def elementCompare (env : FlashEnv) (ns : ℕ) (key : CString) (buf : List UInt8) : Option Bool :=
  match dataElementGet rom env ns key none with
  | none => none
  | some out =>
    match out.ret with
    | .error _ => some false
    | .ok () => if out.bufsize ≠ some buf.length then some false else elementSame rom env ns key buf

end Find

end Gd32.Nvds
