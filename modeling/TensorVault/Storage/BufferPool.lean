import Mathlib.Data.List.AList
import Mathlib.Logic.Function.Basic
import TensorVault.Storage.Page

/-!
# The buffer pool

A page that is not in the pool takes the frame of a victim (`findVictim_spec`), which is written
back first if it is dirty. An operation gets the outcomes of the reads and writes it may come to as
an argument; a write that fails may leave anything in its page. A page that a file does not have
reads as an empty one.
-/

namespace TensorVault

open List

structure PageId where
  tableId : UInt64
  pageNum : UInt32
  deriving DecidableEq, Repr

structure Frame where
  page : Page
  pinCount : UInt32
  dirty : Bool
  referenced : Bool
  pageId : Option PageId
  deriving DecidableEq

structure BufferPool where
  frames : List Frame
  pageTable : AList fun _ : PageId => Nat
  clockHand : Nat
  /-- A table without an entry starts at 0. -/
  nextPageNum : UInt64 → UInt32

/-- The outcome of a write. -/
inductive Write where
  | done
  | failed (left : Page)

/-- The outcomes of the write and the read of a fetch. -/
structure FetchIo where
  write : Write
  canRead : Bool

/-- A pool and the files under it. -/
structure Storage where
  pool : BufferPool
  disk : PageId → Page

namespace BufferPool

/-- A frame that holds no page. -/
def freeFrame : Frame where
  page := .new
  pinCount := 0
  dirty := false
  referenced := false
  pageId := none

/-- `BufferPool::new`. -/
def new (capacity : Nat) : BufferPool where
  frames := List.replicate capacity freeFrame
  pageTable := ∅
  clockHand := 0
  nextPageNum := fun _ => 0

/-- The loop of `find_victim`: the frames, the hand and the victim. It ends in a panic if no frame
was found. -/
def victimLoop : Nat → List Frame → Nat → Option (List Frame × Nat × Nat)
  | 0, _, _ => none
  | k + 1, frames, hand =>
    match frames[hand]? with
    | none => none
    | some frame =>
      let next := (hand + 1) % frames.length
      if frame.pinCount = 0 then
        if frame.referenced then
          victimLoop k (frames.set hand { frame with referenced := false }) next
        else some (frames, next, hand)
      else victimLoop k frames next

/-- `find_victim`. -/
def findVictim (pool : BufferPool) : Option (BufferPool × Nat) :=
  (victimLoop (2 * pool.frames.length) pool.frames pool.clockHand).map fun r =>
    ({ pool with frames := r.1, clockHand := r.2.1 }, r.2.2)

/-- The frame that would be evicted. -/
def victim (pool : BufferPool) : Option Frame :=
  (victimLoop (2 * pool.frames.length) pool.frames pool.clockHand).bind fun r => r.1[r.2.2]?

def setFrame (pool : BufferPool) (idx : Nat) (frame : Frame) : BufferPool :=
  { pool with frames := pool.frames.set idx frame }

end BufferPool

namespace Storage

open BufferPool

/-- `write_page_to_disk`; `false` is an error. -/
def writePage (disk : PageId → Page) (id : PageId) (page : Page) : Write → (PageId → Page) × Bool
  | .done => (Function.update disk id page, true)
  | .failed left => (Function.update disk id left, false)

/-- The page is read into the frame of the victim. -/
def load (s : Storage) (id : PageId) (idx : Nat) : Storage :=
  { s with
    pool := { s.pool with
      frames := s.pool.frames.set idx
        { page := s.disk id, pinCount := 1, dirty := false, referenced := true, pageId := some id }
      pageTable := s.pool.pageTable.insert id idx } }

/-- The part of `fetch_page` behind `find_victim`. -/
def evict (s : Storage) (id : PageId) (io : FetchIo) (idx : Nat) (victim : Frame) :
    Storage × Option Nat :=
  -- the victim is written back if it is dirty
  let (disk, written) :=
    match victim.pageId with
    | some vpid =>
      if victim.dirty then writePage s.disk vpid victim.page io.write else (s.disk, true)
    | none => (s.disk, true)
  if written then
    let pageTable :=
      match victim.pageId with
      | some vpid => s.pool.pageTable.erase vpid
      | none => s.pool.pageTable
    let s := { pool := { s.pool with pageTable }, disk }
    if io.canRead then (s.load id idx, some idx) else (s, none)
  else ({ s with disk }, none)

/-- `fetch_page`: the frame, or `none` for an error. The whole is `none` in a panic. -/
def fetchPage (s : Storage) (id : PageId) (io : FetchIo) : Option (Storage × Option Nat) :=
  match s.pool.pageTable.lookup id with
  | some idx =>
    match s.pool.frames[idx]? with
    | none => none
    | some frame =>
      let frame := { frame with pinCount := frame.pinCount + 1, referenced := true }
      some ({ s with pool := s.pool.setFrame idx frame }, some idx)
  | none =>
    match s.pool.findVictim with
    | none => none
    | some (pool, idx) =>
      match pool.frames[idx]? with
      | none => none
      | some victim => some (evict { s with pool } id io idx victim)

/-- `new_page`: the page, or `none` for an error. -/
def newPage (s : Storage) (tableId : UInt64) (io : FetchIo) : Option (Storage × Option PageId) :=
  let id : PageId := ⟨tableId, s.pool.nextPageNum tableId⟩
  let next := Function.update s.pool.nextPageNum tableId (id.pageNum + 1)
  match fetchPage { s with pool := { s.pool with nextPageNum := next } } id io with
  | none => none
  | some (s, none) => some (s, none)
  | some (s, some idx) =>
    match s.pool.frames[idx]? with
    | none => none
    | some frame =>
      some ({ s with pool := s.pool.setFrame idx { frame with dirty := true } }, some id)

/-- `unpin_page`. -/
def unpinPage (s : Storage) (id : PageId) (dirty : Bool) : Option Storage :=
  match s.pool.pageTable.lookup id with
  | none => some s
  | some idx =>
    match s.pool.frames[idx]? with
    | none => none
    | some frame =>
      let frame := { frame with
        pinCount := if 0 < frame.pinCount then frame.pinCount - 1 else frame.pinCount
        dirty := frame.dirty || dirty }
      some { s with pool := s.pool.setFrame idx frame }

/-- A write through `get_page_mut`. -/
def setPage (s : Storage) (idx : Nat) (page : Page) : Option Storage :=
  match s.pool.frames[idx]? with
  | none => none
  | some frame => some { s with pool := s.pool.setFrame idx { frame with page } }

/-- The loop of `flush_table` and `flush_all` over the pages; `false` is an error. -/
def flushLoop (select : PageId → Bool) (io : PageId → Write) :
    List PageId → Storage → Option (Storage × Bool)
  | [], s => some (s, true)
  | id :: rest, s =>
    match s.pool.pageTable.lookup id with
    | none => none
    | some idx =>
      match s.pool.frames[idx]? with
      | none => none
      | some frame =>
        if select id && frame.dirty then
          match writePage s.disk id frame.page (io id) with
          | (disk, true) =>
            flushLoop select io rest
              { pool := s.pool.setFrame idx { frame with dirty := false }, disk }
          | (disk, false) => some ({ s with disk }, false)
        else flushLoop select io rest s

/-- `flush_table`. The map is iterated in any order; a list that is no order of its keys is no
run. -/
def flushTable (s : Storage) (tableId : UInt64) (order : List PageId) (io : PageId → Write) :
    Option (Storage × Bool) :=
  if order.isPerm s.pool.pageTable.keys then flushLoop (·.tableId = tableId) io order s else none

/-- `flush_all`. -/
def flushAll (s : Storage) (order : List PageId) (io : PageId → Write) : Option (Storage × Bool) :=
  if order.isPerm s.pool.pageTable.keys then flushLoop (fun _ => true) io order s else none

end Storage

/-! ## What the operations change

The clock bits only say which frame is the next victim. `view` is a frame without its bit, and
`find_victim` does not change any.
-/

/-- A frame without its clock bit. -/
def Frame.unreferenced (f : Frame) : Frame := { f with referenced := false }

namespace BufferPool

/-- The frame at an index, without its clock bit. -/
def view (pool : BufferPool) (idx : Nat) : Option Frame :=
  (pool.frames[idx]?).map Frame.unreferenced

variable {idx : Nat} {pool : BufferPool} {k hand : Nat} {frames : List Frame}

theorem view_setFrame {old : Frame} (h : pool.view idx = some old) (frame : Frame) (i : Nat) :
    (pool.setFrame idx frame).view i =
      if i = idx then some frame.unreferenced else pool.view i := by
  obtain ⟨f, hf, -⟩ := Option.map_eq_some_iff.mp h
  have hlt := (List.getElem?_eq_some_iff.mp hf).1
  rw [view, setFrame, getElem?_set]
  by_cases hi : i = idx
  · subst hi
    simp [hlt]
  · rw [if_neg (Ne.symm hi), if_neg hi]
    rfl

/-- A frame that is not the victim is passed over, and loses at most its bit. -/
theorem victimLoop_pass {f : Frame} (hf : frames[hand]? = some f)
    (hbusy : ¬ (f.pinCount = 0 ∧ f.referenced = false)) :
    ∃ frames', victimLoop (k + 1) frames hand = victimLoop k frames' ((hand + 1) % frames.length) ∧
      frames'.map Frame.unreferenced = frames.map Frame.unreferenced ∧
      (∀ i ≠ hand, frames'[i]? = frames[i]?) ∧
      (f.pinCount = 0 → frames'[hand]? = some f.unreferenced) := by
  rw [victimLoop, hf]
  by_cases hpin : f.pinCount = 0
  · have href : f.referenced = true := by simpa [hpin] using hbusy
    refine ⟨frames.set hand f.unreferenced, by simp only [if_pos hpin, if_pos href]; rfl, ?_,
      fun i hi => getElem?_set_ne hi.symm,
      fun _ => getElem?_set_self (List.getElem?_eq_some_iff.mp hf).1⟩
    obtain ⟨hlt, rfl⟩ := List.getElem?_eq_some_iff.mp hf
    rw [map_set]
    exact (congrArg _ (getElem_map _).symm).trans (set_getElem_self (by rwa [length_map]))
  · exact ⟨frames, by simp only [if_neg hpin], rfl, fun _ _ => rfl, fun h => absurd h hpin⟩

theorem victimLoop_eq_some {frames' : List Frame} {next : Nat}
    (h : victimLoop k frames hand = some (frames', next, idx)) :
    frames'.map Frame.unreferenced = frames.map Frame.unreferenced ∧
      ∃ f, frames'[idx]? = some f ∧ f.pinCount = 0 := by
  induction k generalizing frames hand with
  | zero => exact nomatch h
  | succ k ih =>
    cases hframe : frames[hand]? with
    | none => rw [victimLoop, hframe] at h; exact nomatch h
    | some frame =>
      by_cases hfree : frame.pinCount = 0 ∧ frame.referenced = false
      · rw [victimLoop, hframe] at h
        simp only [hfree, if_true, Bool.false_eq_true, if_false] at h
        cases h
        exact ⟨rfl, frame, hframe, hfree.1⟩
      · obtain ⟨frames₁, hloop, hsame, -⟩ := victimLoop_pass (k := k) hframe hfree
        obtain ⟨heq, hvictim⟩ := ih (hloop ▸ h)
        exact ⟨heq.trans hsame, hvictim⟩

/-- The victim is not pinned. -/
theorem findVictim_eq_some {pool' : BufferPool} (h : pool.findVictim = some (pool', idx)) :
    pool'.view = pool.view ∧ pool'.pageTable = pool.pageTable ∧
      pool'.nextPageNum = pool.nextPageNum ∧ ∃ f, pool'.frames[idx]? = some f ∧ f.pinCount = 0 := by
  obtain ⟨⟨frames, next, victim⟩, hloop, heq⟩ := Option.map_eq_some_iff.mp h
  cases heq
  obtain ⟨hsame, hvictim⟩ := victimLoop_eq_some hloop
  refine ⟨funext fun i => ?_, rfl, rfl, hvictim⟩
  rw [view, view, ← getElem?_map, hsame, getElem?_map]

/-- A frame without a pin ends the loop, in the sweep after the one that clears its bit. If its bit
is not set, the loop ends at a frame whose bit was not set. -/
theorem victimLoop_of_unpinned {j n : Nat} {g : Frame} (hn : frames.length = n) (hhand : hand < n)
    (hj : j < n) (hg : frames[(hand + j) % n]? = some g) (hpin : g.pinCount = 0)
    (hk : j + (if g.referenced then n else 0) < k) :
    ∃ frames' next i, victimLoop k frames hand = some (frames', next, (hand + i) % n) ∧ next < n ∧
      (g.referenced = false →
        i ≤ j ∧ ∃ f, frames[(hand + i) % n]? = some f ∧ f.referenced = false) := by
  induction k generalizing frames hand j g with
  | zero => omega
  | succ k ih =>
    obtain ⟨f, hf⟩ : ∃ f, frames[hand]? = some f := ⟨_, getElem?_eq_getElem (hn ▸ hhand)⟩
    have hzero : (hand + 0) % n = hand := Nat.mod_eq_of_lt hhand
    have hlt : (hand + 1) % n < n := Nat.mod_lt _ (by omega)
    by_cases hfree : f.pinCount = 0 ∧ f.referenced = false
    · refine ⟨frames, (hand + 1) % n, 0, ?_, hlt, fun _ => ⟨Nat.zero_le j, f, ?_, hfree.2⟩⟩
      · rw [victimLoop, hf, hzero]
        simp [hfree, hn]
      · rw [hzero, hf]
    obtain ⟨frames', hloop, hview, hsame, hcleared⟩ := victimLoop_pass (k := k) hf hfree
    have hlen : frames'.length = n := by simpa [hn] using congrArg length hview
    rw [hloop, hn]
    have hnext : ∀ i, ((hand + 1) % n + i) % n = (hand + (i + 1)) % n := fun i => by
      rw [Nat.mod_add_mod, Nat.add_assoc, Nat.add_comm 1]
    have hne : ∀ i, 0 < i → i < n → (hand + i) % n ≠ hand := fun i hpos hi => by
      by_cases h : hand + i < n
      · rw [Nat.mod_eq_of_lt h]; omega
      · rw [Nat.mod_eq_sub_mod (by omega), Nat.mod_eq_of_lt (by omega)]; omega
    cases j with
    | zero =>
      -- the bit is cleared now, and the hand comes back after a whole sweep
      rw [hzero, hf] at hg
      cases hg
      have href : g.referenced = true := by simpa [hpin] using hfree
      obtain ⟨m, rfl⟩ : ∃ m, n = m + 1 := ⟨n - 1, by omega⟩
      rw [href, if_pos rfl] at hk
      obtain ⟨frames'', next, i, heq, hin, -⟩ :=
        ih (j := m) (g := g.unreferenced) hlen hlt (by omega)
        (by rw [hnext, Nat.add_mod_right, Nat.mod_eq_of_lt hhand, hcleared hpin]) hpin
        (by simp only [Frame.unreferenced, Bool.false_eq_true, if_false]; omega)
      exact ⟨frames'', next, i + 1, by rw [heq, hnext], hin, fun h => by cases href.symm.trans h⟩
    | succ j =>
      obtain ⟨frames'', next, i, heq, hin, hbit⟩ := ih (j := j) hlen hlt (by omega)
        (by rw [hnext, hsame _ (hne _ (by omega) hj), hg]) hpin (by omega)
      refine ⟨frames'', next, i + 1, by rw [heq, hnext], hin, fun h => ?_⟩
      obtain ⟨hle, hfirst⟩ := hbit h
      rw [hnext, hsame _ (hne _ (by omega) (by omega))] at hfirst
      exact ⟨by omega, hfirst⟩

/-- The clock, with its hand on a frame, where it stays: a frame is found unless all are pinned,
only clock bits change, and a frame whose bit was set is taken only if all bits without a pin were
set. -/
theorem findVictim_spec {pool : BufferPool}
    (hhand : pool.frames ≠ [] → pool.clockHand < pool.frames.length) :
    (pool.findVictim = none ↔ ∀ f ∈ pool.frames, f.pinCount ≠ 0) ∧
    ∀ pool' idx, pool.findVictim = some (pool', idx) →
      pool'.clockHand < pool.frames.length ∧ pool'.view = pool.view ∧
      pool'.pageTable = pool.pageTable ∧ pool'.nextPageNum = pool.nextPageNum ∧
      ∃ f, pool.frames[idx]? = some f ∧ f.pinCount = 0 ∧
        (f.referenced = true → ∀ g ∈ pool.frames, g.pinCount = 0 → g.referenced = true) := by
  have hfound : ∀ g ∈ pool.frames, g.pinCount = 0 → ∃ pool' idx,
      pool.findVictim = some (pool', idx) ∧ pool'.clockHand < pool.frames.length ∧
        (g.referenced = false → ∃ f, pool.frames[idx]? = some f ∧ f.referenced = false) := by
    intro g hg hpin
    have hhand := hhand (ne_nil_of_mem hg)
    obtain ⟨t, ht⟩ := mem_iff_getElem?.mp hg
    obtain ⟨hlt, -⟩ := List.getElem?_eq_some_iff.mp ht
    -- how far the hand is from the frame
    obtain ⟨j, hj, rfl⟩ : ∃ j < pool.frames.length,
        (pool.clockHand + j) % pool.frames.length = t := by
      by_cases h : pool.clockHand ≤ t
      · exact ⟨t - pool.clockHand, by omega, by rw [Nat.add_sub_cancel' h, Nat.mod_eq_of_lt hlt]⟩
      · refine ⟨t + pool.frames.length - pool.clockHand, by omega, ?_⟩
        rw [Nat.add_sub_cancel' (by omega), Nat.add_mod_right, Nat.mod_eq_of_lt hlt]
    obtain ⟨frames', next, i, hloop, hin, hbit⟩ := victimLoop_of_unpinned
      (k := 2 * pool.frames.length) rfl hhand hj ht hpin (by split <;> omega)
    exact ⟨_, _, by rw [findVictim, hloop]; rfl, hin, fun h => (hbit h).2⟩
  have hvictim : ∀ pool' idx, pool.findVictim = some (pool', idx) →
      ∃ f, pool.frames[idx]? = some f ∧ f.pinCount = 0 := by
    intro pool' idx h
    obtain ⟨hview, -, -, f', hf', hpin⟩ := findVictim_eq_some h
    have := congrFun hview idx
    rw [view, view, hf', eq_comm, Option.map_some, Option.map_eq_some_iff] at this
    obtain ⟨f, hf, heq⟩ := this
    exact ⟨f, hf, (congrArg Frame.pinCount heq).trans hpin⟩
  refine ⟨⟨fun hnone f hf hpin => ?_, fun hall => ?_⟩, fun pool' idx h => ?_⟩
  · obtain ⟨pool', idx, hsome, -⟩ := hfound f hf hpin
    cases hnone.symm.trans hsome
  · refine Option.eq_none_iff_forall_ne_some.mpr fun r h => ?_
    obtain ⟨f, hf, hpin⟩ := hvictim r.1 r.2 h
    exact hall f (mem_of_getElem? hf) hpin
  · obtain ⟨f, hf, hpin⟩ := hvictim pool' idx h
    obtain ⟨hview, htable, hnext, -⟩ := findVictim_eq_some h
    obtain ⟨pool'', idx', h', hin, -⟩ := hfound f (mem_of_getElem? hf) hpin
    cases h.symm.trans h'
    refine ⟨hin, hview, htable, hnext, f, hf, hpin, fun href g hg hgpin => ?_⟩
    obtain ⟨pool'', idx', h', -, hbit⟩ := hfound g hg hgpin
    cases h.symm.trans h'
    by_contra hgref
    obtain ⟨f', hf', href'⟩ := hbit (Bool.eq_false_iff.mpr hgref)
    cases hf.symm.trans hf'
    cases href.symm.trans href'

/-- A free frame, one whose bit is set and one that is pinned, with the hand on the second. -/
def threeFrames : BufferPool where
  frames := [freeFrame, { freeFrame with referenced := true },
    { freeFrame with pinCount := 1, referenced := true }]
  pageTable := ∅
  clockHand := 1
  nextPageNum := fun _ => 0

/-- The hand clears the bit, goes past the pin and around, and takes the free frame. -/
theorem findVictim_threeFrames : ∃ pool', threeFrames.findVictim = some (pool', 0) ∧
    pool'.clockHand = 1 ∧ pool'.frames.map (·.referenced) = [false, false, true] ∧
    pool'.view = threeFrames.view := by
  have hvictim : threeFrames.findVictim = some (_, 0) := rfl
  obtain ⟨-, hview, -⟩ := (@findVictim_spec threeFrames fun _ => by decide).2 _ _ hvictim
  exact ⟨_, hvictim, rfl, rfl, hview⟩

end BufferPool

end TensorVault
