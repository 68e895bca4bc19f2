import Mathlib.Data.List.Perm.Basic
import TensorVault.Lib.Run
import TensorVault.Storage.BufferPool

/-!
# The buffer pool as a store of pages

`Session` is a pool with its clients: the pins they hold, and for every page what was last written
to it. A page is written through a frame that is pinned, and its pin is given back as dirty.
`session_refines` says when the pool is a store. The condition is about a read that fails:
`fetch_page` has then already dropped the victim from the page table but left the frame as it was,
so the frame must have been a free one.
-/

namespace TensorVault

open List Option Function

/-! ## Clients -/

/-- A pin that a client holds, with the frame if it came from `fetch_page`. -/
structure Pin where
  id : PageId
  frame : Option Nat
  wrote : Bool
  deriving DecidableEq, Repr

structure Session where
  storage : Storage
  pins : List Pin
  /-- What was last written to a page. -/
  contents : PageId → Page

inductive PoolOp where
  | newPage (tableId : UInt64) (io : FetchIo)
  | fetchPage (id : PageId) (io : FetchIo)
  /-- Through the frame of the pin at a position. -/
  | write (pin : Nat) (page : Page)
  | unpin (pin : Nat) (dirty : Bool)
  | flushTable (tableId : UInt64) (order : List PageId) (io : PageId → Write)
  | flushAll (order : List PageId) (io : PageId → Write)

namespace Session

variable {u v : Session} {id : PageId} {idx : Nat} {io : FetchIo} {disk : PageId → Page}

/-- A new pool over some files. -/
def start (capacity : Nat) (disk : PageId → Page) : Session where
  storage := { pool := .new capacity, disk }
  pins := []
  contents := disk

/-- The client has the pin if the fetch succeeded. -/
def fetched (u : Session) (id : PageId) : Storage × Option Nat → Session
  | (storage, none) => { u with storage }
  | (storage, some idx) => { u with storage, pins := ⟨id, some idx, false⟩ :: u.pins }

/-- A new page comes with a pin, but without its frame. -/
def allocated (u : Session) : Storage × Option PageId → Session
  | (storage, none) => { u with storage }
  | (storage, some id) => { u with storage, pins := ⟨id, none, false⟩ :: u.pins }

/-- An operation of a client; `none` if the process ends in it or the discipline does not allow
it. -/
def step (u : Session) : PoolOp → Option Session
  | .newPage tableId io => (u.storage.newPage tableId io).map u.allocated
  | .fetchPage id io => (u.storage.fetchPage id io).map (u.fetched id)
  | .write pin page =>
    match u.pins[pin]? with
    | some ⟨id, some idx, _⟩ =>
      (u.storage.setPage idx page).map fun storage =>
        { storage
          pins := u.pins.set pin ⟨id, some idx, true⟩
          contents := Function.update u.contents id page }
    | _ => none
  | .unpin pin dirty =>
    match u.pins[pin]? with
    | some p =>
      if p.wrote && !dirty then none
      else (u.storage.unpinPage p.id dirty).map fun storage =>
        { u with storage, pins := u.pins.eraseIdx pin }
    | none => none
  | .flushTable tableId order io =>
    (u.storage.flushTable tableId order io).map fun r => { u with storage := r.1 }
  | .flushAll order io => (u.storage.flushAll order io).map fun r => { u with storage := r.1 }

/-- How many pins there are on a page. -/
def pinsOn (pins : List Pin) (id : PageId) : Nat := pins.countP (·.id = id)

/-- A page has been written through a pin that is still held. -/
def Pending (pins : List Pin) (id : PageId) : Prop := ∃ p ∈ pins, p.id = id ∧ p.wrote = true

/-! ## The condition -/

/-- A page in the pool has not yet as many pins as can be counted; for one that is not, the read
succeeds or the victim is a frame that holds no page. -/
def FetchKept (u : Session) (id : PageId) (io : FetchIo) : Prop :=
  match u.storage.pool.pageTable.lookup id with
  | some _ => pinsOn u.pins id + 1 < 2 ^ 32
  | none => io.canRead = true ∨ ∀ frame ∈ u.storage.pool.victim, frame.pageId = none

/-- What an operation has to meet. -/
def StepKept (u : Session) : PoolOp → Prop
  | .newPage tableId io => u.FetchKept ⟨tableId, u.storage.pool.nextPageNum tableId⟩ io
  | .fetchPage id io => u.FetchKept id io
  | _ => True

/-! ## The invariant -/

/-- The page table, the frames, the pins and the disk fit together. -/
structure Consistent (u : Session) : Prop where
  mapped : ∀ id idx, u.storage.pool.pageTable.lookup id = some idx →
    ∃ f, u.storage.pool.view idx = some f ∧ f.pageId = some id ∧ f.page = u.contents id ∧
      f.pinCount.toNat = pinsOn u.pins id ∧
      (f.dirty = true ∨ Pending u.pins id ∨ u.storage.disk id = u.contents id)
  held : ∀ idx f id, u.storage.pool.view idx = some f → f.pageId = some id →
    u.storage.pool.pageTable.lookup id = some idx
  away : ∀ id, u.storage.pool.pageTable.lookup id = none →
    u.storage.disk id = u.contents id ∧ pinsOn u.pins id = 0
  pinned : ∀ p ∈ u.pins, ∀ idx, p.frame = some idx →
    u.storage.pool.pageTable.lookup p.id = some idx

theorem consistent_start {capacity : Nat} : (start capacity disk).Consistent where
  mapped id idx h := by simp [start, BufferPool.new] at h
  held idx f id hf hid := by
    simp only [start, BufferPool.view, BufferPool.new, map_eq_some_iff, getElem?_replicate] at hf
    obtain ⟨g, hg, rfl⟩ := hf
    split at hg
    · cases hg
      cases hid
    · cases hg
  away id _ := ⟨rfl, rfl⟩
  pinned p h := nomatch h

variable {pins : List Pin} {p : Pin} {f : Frame} {k : Nat} {s : Storage} {op : PoolOp}

/-- No pin, no pending write. -/
theorem not_pending (h : pinsOn pins id = 0) : ¬ Pending pins id := by
  rintro ⟨p, hp, hid, -⟩
  have := countP_eq_zero.mp h p hp
  simp [hid] at this

theorem pinsOn_cons (pins : List Pin) (id i : PageId) (frame : Option Nat) :
    pinsOn (⟨id, frame, false⟩ :: pins) i = pinsOn pins i + if i = id then 1 else 0 := by
  simp [pinsOn, countP_cons, eq_comm]

theorem Pending.cons (h : Pending pins id) : Pending (p :: pins) id := by
  obtain ⟨q, hq, hid⟩ := h
  exact ⟨q, mem_cons_of_mem _ hq, hid⟩

theorem view_of_frame {pool : BufferPool} (h : pool.frames[idx]? = some f) :
    pool.view idx = some f.unreferenced := by
  rw [BufferPool.view, h]
  rfl

theorem ne_of_lookup {table : AList fun _ : PageId => Nat} {i : PageId}
    (hi : table.lookup i = none) (hid : table.lookup id = some idx) : i ≠ id := by
  rintro rfl
  cases hi.symm.trans hid

/-- A change of the frame of one page: what has to be shown of this page and of the other ones. -/
theorem Consistent.setFrame (hu : u.Consistent)
    (hid : u.storage.pool.pageTable.lookup id = some idx) {frame : Frame} {contents : PageId → Page}
    (hv : v = { storage := { pool := u.storage.pool.setFrame idx frame, disk }, pins, contents })
    (hpageId : frame.pageId = some id) (hpage : frame.page = v.contents id)
    (hpinCount : frame.pinCount.toNat = pinsOn v.pins id)
    (hsaved : frame.dirty = true ∨ Pending v.pins id ∨ v.storage.disk id = v.contents id)
    (hothers : ∀ i ≠ id, v.contents i = u.contents i ∧ v.storage.disk i = u.storage.disk i ∧
      pinsOn v.pins i = pinsOn u.pins i ∧ (Pending u.pins i → Pending v.pins i))
    (hpinned : ∀ p ∈ v.pins, ∀ i, p.frame = some i →
      u.storage.pool.pageTable.lookup p.id = some i) : v.Consistent := by
  subst hv
  obtain ⟨old, hold, holdId, -⟩ := hu.mapped id idx hid
  have hview := BufferPool.view_setFrame hold frame
  constructor
  · intro i k hk
    by_cases hi : i = id
    · subst hi
      cases hid.symm.trans hk
      exact ⟨frame.unreferenced, by rw [hview, if_pos rfl], hpageId, hpage, hpinCount, hsaved⟩
    · obtain ⟨f, hf, hfid, hfpage, hfpin, hfsaved⟩ := hu.mapped i k hk
      obtain ⟨hcontents, hdisk, hpins, hpending⟩ := hothers i hi
      have hne : k ≠ idx := by
        rintro rfl
        cases hold.symm.trans hf
        exact hi (Option.some.inj (hfid.symm.trans holdId))
      refine ⟨f, by rw [hview, if_neg hne]; exact hf, hfid, hfpage.trans hcontents.symm,
        hfpin.trans hpins.symm, ?_⟩
      rw [hdisk, hcontents]
      exact hfsaved.imp_right (Or.imp_left hpending)
  · intro k f i hf hfid
    rw [hview] at hf
    split at hf
    · next hk =>
      cases hf
      rw [hk, ← Option.some.inj (hpageId.symm.trans hfid)]
      exact hid
    · exact hu.held k f i hf hfid
  · intro i hi
    obtain ⟨hcontents, hdisk, hpins, -⟩ := hothers i (ne_of_lookup hi hid)
    obtain ⟨hsame, hzero⟩ := hu.away i hi
    exact ⟨by rw [hdisk, hcontents]; exact hsame, hpins.trans hzero⟩
  · exact hpinned

/-- Clock bits, the hand and the page numbers do not matter. -/
theorem Consistent.of_view (hu : u.Consistent) {pool : BufferPool}
    (hview : pool.view = u.storage.pool.view) (htable : pool.pageTable = u.storage.pool.pageTable) :
    { u with storage := { u.storage with pool } : Session }.Consistent where
  mapped := by simpa only [hview, htable] using hu.mapped
  held := by simpa only [hview, htable] using hu.held
  away := by simpa only [htable] using hu.away
  pinned := by simpa only [htable] using hu.pinned

/-- The disk may have anything for the page of a dirty frame. -/
theorem Consistent.failedWrite (hu : u.Consistent) (hf : u.storage.pool.view idx = some f)
    (hid : f.pageId = some id) (hdirty : f.dirty = true) {left : Page} : { u with storage :=
      { u.storage with disk := Function.update u.storage.disk id left } : Session }.Consistent where
  mapped i k hk := by
    obtain ⟨g, hg, hgid, hpage, hpin, hsaved⟩ := hu.mapped i k hk
    refine ⟨g, hg, hgid, hpage, hpin, ?_⟩
    by_cases hi : i = id
    · subst hi
      cases (hu.held idx f i hf hid).symm.trans hk
      cases hf.symm.trans hg
      exact .inl hdirty
    · simpa only [update_of_ne hi] using hsaved
  held := hu.held
  away i hi := by
    have hne := ne_of_lookup hi (hu.held idx f id hf hid)
    simpa only [update_of_ne hne] using hu.away i hi
  pinned := hu.pinned

/-- The page of an unpinned frame can leave the pool once it is on the disk. -/
theorem Consistent.load (hu : u.Consistent) (hid : u.storage.pool.pageTable.lookup id = none)
    (hf : u.storage.pool.view idx = some f) (hpin : f.pinCount = 0)
    (hdisk : ∀ i, f.pageId ≠ some i → disk i = u.storage.disk i)
    (hsaved : ∀ vpid, f.pageId = some vpid → disk vpid = u.contents vpid)
    {pageTable : AList fun _ : PageId => Nat} (htable : ∀ i, pageTable.lookup i =
      if f.pageId = some i then none else u.storage.pool.pageTable.lookup i) :
    { u with
      storage := Storage.load { pool := { u.storage.pool with pageTable }, disk } id idx
      pins := ⟨id, some idx, false⟩ :: u.pins : Session }.Consistent := by
  have hvictim : ∀ vpid, f.pageId = some vpid → pinsOn u.pins vpid = 0 ∧ vpid ≠ id :=
    fun vpid hv => by
    have hmapped := hu.held idx f vpid hf hv
    obtain ⟨g, hg, -, -, hpins, -⟩ := hu.mapped vpid idx hmapped
    cases hf.symm.trans hg
    exact ⟨by rw [← hpins, hpin]; rfl, (ne_of_lookup hid hmapped).symm⟩
  have hnotVictim : f.pageId ≠ some id := fun h => (hvictim id h).2 rfl
  have hview := BufferPool.view_setFrame hf
    { page := disk id, pinCount := 1, dirty := false, referenced := true, pageId := some id }
  have hlookup : ∀ i, (pageTable.insert id idx).lookup i = if i = id then some idx else
      if f.pageId = some i then none else u.storage.pool.pageTable.lookup i := fun i => by
    by_cases hi : i = id
    · subst hi
      rw [AList.lookup_insert, if_pos rfl]
    · rw [AList.lookup_insert_ne hi, if_neg hi, htable]
  have hdiskEq : ∀ i, f.pageId ≠ some i → u.storage.pool.pageTable.lookup i = none →
      disk i = u.contents i := fun i hi hnone => (hdisk i hi).trans (hu.away i hnone).1
  constructor
  · intro i k hk
    have hk := (hlookup i).symm.trans hk
    by_cases hi : i = id
    · subst hi
      rw [if_pos rfl] at hk
      cases hk
      refine ⟨_, (hview idx).trans (if_pos rfl), rfl, hdiskEq i hnotVictim hid, ?_,
        .inr (.inr (hdiskEq i hnotVictim hid))⟩
      rw [pinsOn_cons, (hu.away i hid).2, if_pos rfl]
      rfl
    · rw [if_neg hi] at hk
      split at hk
      · cases hk
      · next hnot =>
        obtain ⟨g, hg, hgid, hpage, hgpin, hgsaved⟩ := hu.mapped i k hk
        have hne : k ≠ idx := by
          rintro rfl
          cases hf.symm.trans hg
          exact hnot hgid
        refine ⟨g, ((hview k).trans (if_neg hne)).trans hg, hgid, hpage,
          by rw [pinsOn_cons, if_neg hi]; exact hgpin, ?_⟩
        exact hgsaved.imp_right (Or.imp (Pending.cons ·) (hdisk i hnot).trans)
  · intro k g i hg hgid
    have hg := (hview k).symm.trans hg
    refine (hlookup i).trans ?_
    split at hg
    · next hk =>
      cases hg
      cases hgid
      rw [if_pos rfl, hk]
    · next hk =>
      have hmapped := hu.held k g i hg hgid
      rw [if_neg (ne_of_lookup hid hmapped).symm, if_neg, hmapped]
      intro hv
      exact hk (Option.some.inj (hmapped.symm.trans (hu.held idx f i hf hv)))
  · intro i hi
    have hi := (hlookup i).symm.trans hi
    have hne : i ≠ id := by
      rintro rfl
      rw [if_pos rfl] at hi
      cases hi
    rw [pinsOn_cons, if_neg hne]
    rw [if_neg hne] at hi
    split at hi
    · next hv => exact ⟨hsaved i hv, (hvictim i hv).1⟩
    · next hv => exact ⟨hdiskEq i hv hi, (hu.away i hi).2⟩
  · intro p hp k hk
    refine (hlookup p.id).trans ?_
    rcases mem_cons.mp hp with rfl | hp
    · cases hk
      exact if_pos rfl
    · have hmapped := hu.pinned p hp k hk
      have hpos : pinsOn u.pins p.id ≠ 0 := fun hzero => by
        simpa using countP_eq_zero.mp hzero p hp
      rw [if_neg (ne_of_lookup hid hmapped).symm, if_neg fun hv => hpos (hvictim _ hv).1, hmapped]

/-! ## The operations -/

/-- The victim makes room, or the fetch fails and the victim stays. -/
theorem Consistent.evict (hu : u.Consistent) (hid : u.storage.pool.pageTable.lookup id = none)
    {victim : Frame} (hvictim : u.storage.pool.frames[idx]? = some victim)
    (hpin : victim.pinCount = 0) (hio : io.canRead = true ∨ victim.pageId = none) :
    (u.fetched id (u.storage.evict id io idx victim)).Consistent := by
  have hview := view_of_frame hvictim
  cases hpageId : victim.pageId with
  | none =>
    have hne : ∀ i, victim.unreferenced.pageId ≠ some i := fun i h => by
      cases hpageId.symm.trans h
    cases hread : io.canRead with
    | false => simpa [Storage.evict, hpageId, hread, fetched] using hu
    | true =>
      simp only [Storage.evict, hpageId, hread, fetched, if_true]
      exact hu.load hid hview hpin (fun _ _ => rfl) (fun i h => absurd h (hne i))
        fun i => by rw [if_neg (hne i)]
  | some vpid =>
    obtain hread := hio.resolve_right (by simp [hpageId])
    have hmapped := hu.held idx _ vpid hview hpageId
    obtain ⟨g, hg, -, hpage, hpins, hsaved⟩ := hu.mapped vpid idx hmapped
    cases hview.symm.trans hg
    have hnot : ¬ Pending u.pins vpid := not_pending (by rw [← hpins]; exact congrArg _ hpin)
    have heq : ∀ i, victim.unreferenced.pageId = some i → i = vpid := fun i h =>
      Option.some.inj (h.symm.trans hpageId)
    have htable : ∀ i, (u.storage.pool.pageTable.erase vpid).lookup i =
        if victim.unreferenced.pageId = some i then none
        else u.storage.pool.pageTable.lookup i := fun i => by
      by_cases hi : vpid = i
      · rw [if_pos (hi ▸ hpageId), hi, AList.lookup_erase]
      · rw [if_neg fun h => hi (heq i h).symm, AList.lookup_erase_ne (Ne.symm hi)]
    cases hdirty : victim.dirty with
    | false =>
      simp only [Storage.evict, hpageId, hdirty, hread, fetched, if_true, Bool.false_eq_true,
        if_false]
      refine hu.load hid hview hpin (fun _ _ => rfl) (fun i h => ?_) htable
      rw [heq i h]
      exact (hsaved.resolve_left (by simp [Frame.unreferenced, hdirty])).resolve_left hnot
    | true =>
      cases hwrite : io.write with
      | failed left =>
        simp only [Storage.evict, hpageId, hdirty, hwrite, Storage.writePage, fetched, if_true,
          Bool.false_eq_true, if_false]
        exact hu.failedWrite hview hpageId hdirty
      | done =>
        simp only [Storage.evict, hpageId, hdirty, hwrite, Storage.writePage, hread,
          fetched, if_true]
        refine hu.load hid hview hpin (fun i h => update_of_ne ?_ _ _) (fun i h => ?_) htable
        · rintro rfl
          exact h hpageId
        · rw [heq i h, update_self]
          exact hpage

theorem Consistent.fetchPage (hu : u.Consistent) (hkept : u.FetchKept id io)
    {r : Storage × Option Nat} (h : u.storage.fetchPage id io = some r) :
    (u.fetched id r).Consistent := by
  unfold Storage.fetchPage at h
  unfold FetchKept at hkept
  cases hid : u.storage.pool.pageTable.lookup id with
  | some idx =>
    simp only [hid] at h hkept
    obtain ⟨f, hf, hfid, hpage, hpins, hsaved⟩ := hu.mapped id idx hid
    obtain ⟨g, hg, rfl⟩ := map_eq_some_iff.mp hf
    simp only [hg] at h
    cases h
    refine hu.setFrame hid rfl hfid hpage ?_ (hsaved.imp_right (Or.imp_left (Pending.cons ·)))
      (fun i hi => ⟨rfl, rfl, (pinsOn_cons ..).trans (by rw [if_neg hi]; rfl), (Pending.cons ·)⟩) ?_
    · show (g.pinCount + 1).toNat = _
      have hlt : g.pinCount.toNat + 1 < 2 ^ 32 := by
        rw [show g.pinCount.toNat = _ from hpins]
        exact hkept
      refine Eq.trans ?_ (pinsOn_cons ..).symm
      rw [UInt32.toNat_add, if_pos rfl, ← show g.pinCount.toNat = _ from hpins]
      exact Nat.mod_eq_of_lt hlt
    · intro p hp k hk
      rcases mem_cons.mp hp with rfl | hp
      · cases hk
        exact hid
      · exact hu.pinned p hp k hk
  | none =>
    simp only [hid] at h hkept
    cases hfind : u.storage.pool.findVictim with
    | none =>
      rw [hfind] at h
      cases h
    | some found =>
      obtain ⟨hview, htable, -, f, hf, hpin⟩ := BufferPool.findVictim_eq_some hfind
      simp only [hfind, hf] at h
      cases h
      refine (hu.of_view hview htable).evict (htable ▸ hid) hf hpin
        (hkept.imp_right fun hfree => ?_)
      obtain ⟨r, hr, hfound⟩ := map_eq_some_iff.mp hfind
      cases hfound
      exact hfree f (by rw [BufferPool.victim, hr]; exact hf)

/-- The frame of a page in the pool. -/
theorem Consistent.frame (hu : u.Consistent) (hid : u.storage.pool.pageTable.lookup id = some idx)
    (hf : u.storage.pool.frames[idx]? = some f) :
    f.pageId = some id ∧ f.page = u.contents id ∧ f.pinCount.toNat = pinsOn u.pins id ∧
      (f.dirty = true ∨ Pending u.pins id ∨ u.storage.disk id = u.contents id) := by
  obtain ⟨g, hg, h⟩ := hu.mapped id idx hid
  rw [BufferPool.view, hf] at hg
  cases hg
  exact h

theorem Consistent.newPage (hu : u.Consistent) {tableId : UInt64}
    (hkept : u.StepKept (.newPage tableId io)) {r : Storage × Option PageId}
    (h : u.storage.newPage tableId io = some r) : (u.allocated r).Consistent := by
  unfold Storage.newPage at h
  dsimp only at h
  set next := Function.update u.storage.pool.nextPageNum tableId _
  set id : PageId := ⟨tableId, u.storage.pool.nextPageNum tableId⟩
  -- the page numbers change before the page is fetched
  have hnext := @Consistent.of_view u hu { u.storage.pool with nextPageNum := next } rfl rfl
  split at h
  · cases h
  · next s hfetch =>
    cases h
    exact hnext.fetchPage hkept hfetch
  · next s idx hfetch =>
    have hs := hnext.fetchPage hkept hfetch
    split at h
    · cases h
    · next frame hframe =>
      cases h
      have hid := hs.pinned _ mem_cons_self idx rfl
      obtain ⟨hpageId, hpage, hpins, -⟩ := hs.frame hid hframe
      refine hs.setFrame hid rfl hpageId hpage hpins (.inl rfl) (fun i _ => ⟨rfl, rfl, rfl, ?_⟩) ?_
      · rintro ⟨p, hp, hpid, hwrote⟩
        rcases mem_cons.mp hp with rfl | hp
        · cases hwrote
        · exact ⟨p, mem_cons_of_mem _ hp, hpid, hwrote⟩
      · intro p hp k hk
        rcases mem_cons.mp hp with rfl | hp
        · cases hk
        · exact hs.pinned p (mem_cons_of_mem _ hp) k hk

/-- The pin at a position, and the other ones. -/
theorem perm_cons_eraseIdx (h : pins[k]? = some p) : pins.Perm (p :: pins.eraseIdx k) := by
  obtain ⟨hk, rfl⟩ := List.getElem?_eq_some_iff.mp h
  exact (getElem_cons_eraseIdx_perm hk).symm

theorem Consistent.write (hu : u.Consistent) {page : Page}
    (h : u.step (.write k page) = some v) : v.Consistent := by
  unfold step at h
  dsimp only at h
  split at h
  · next id idx wrote hk =>
    obtain ⟨s, hs, rfl⟩ := map_eq_some_iff.mp h
    have hpins := perm_cons_eraseIdx hk
    have hset := set_perm_cons_eraseIdx (List.getElem?_eq_some_iff.mp hk).1 ⟨id, some idx, true⟩
    have hid : u.storage.pool.pageTable.lookup id = some idx :=
      hu.pinned _ (mem_of_getElem? hk) idx rfl
    unfold Storage.setPage at hs
    split at hs
    · cases hs
    · next frame hframe =>
      cases hs
      obtain ⟨hpageId, -, hcount, -⟩ := hu.frame hid hframe
      have hsame : ∀ i, pinsOn (u.pins.set k ⟨id, some idx, true⟩) i = pinsOn u.pins i :=
        fun i => by
        rw [pinsOn, pinsOn, hset.countP_eq, hpins.countP_eq]
        simp only [countP_cons]
      refine hu.setFrame hid rfl hpageId (update_self id page u.contents).symm
        (hcount.trans (hsame id).symm)
        (.inr (.inl ⟨_, hset.mem_iff.mpr mem_cons_self, rfl, rfl⟩))
        (fun i hi => ⟨update_of_ne hi .., rfl, hsame i, ?_⟩) ?_
      · rintro ⟨p, hp, hpid, hwrote⟩
        rcases mem_cons.mp (hpins.mem_iff.mp hp) with rfl | hp
        · exact absurd hpid.symm hi
        · exact ⟨p, hset.mem_iff.mpr (mem_cons_of_mem _ hp), hpid, hwrote⟩
      · intro p hp j hj
        rcases mem_cons.mp (hset.mem_iff.mp hp) with rfl | hp
        · cases hj
          exact hid
        · exact hu.pinned p (mem_of_mem_eraseIdx hp) j hj
  · cases h

theorem Consistent.unpin (hu : u.Consistent) {dirty : Bool}
    (h : u.step (.unpin k dirty) = some v) : v.Consistent := by
  unfold step at h
  dsimp only at h
  split at h
  · next p hk =>
    split at h
    · cases h
    · next hdiscipline =>
      obtain ⟨s, hs, rfl⟩ := map_eq_some_iff.mp h
      have hpins := perm_cons_eraseIdx hk
      have hcount : ∀ i, pinsOn u.pins i =
          pinsOn (u.pins.eraseIdx k) i + if p.id = i then 1 else 0 := fun i => by
        rw [pinsOn, hpins.countP_eq]
        simp [pinsOn, countP_cons]
      unfold Storage.unpinPage at hs
      split at hs
      · next hnone =>
        have := (hu.away _ hnone).2
        rw [hcount, if_pos rfl] at this
        cases this
      · next idx hid =>
        split at hs
        · cases hs
        · next frame hframe =>
          cases hs
          obtain ⟨hpageId, hpage, hpinCount, hsaved⟩ := hu.frame hid hframe
          rw [hcount, if_pos rfl] at hpinCount
          have hpending : ∀ i, Pending u.pins i →
              Pending (u.pins.eraseIdx k) i ∨ p.id = i ∧ p.wrote = true := by
            rintro i ⟨q, hq, hqid, hwrote⟩
            rcases mem_cons.mp (hpins.mem_iff.mp hq) with rfl | hq
            · exact .inr ⟨hqid, hwrote⟩
            · exact .inl ⟨q, hq, hqid, hwrote⟩
          refine hu.setFrame hid rfl hpageId hpage ?_ ?_
            (fun i hi => ⟨rfl, rfl, ?_, fun hi' => ?_⟩) ?_
          · have hpos : 0 < frame.pinCount := UInt32.lt_iff_toNat_lt.mpr (by
              rw [hpinCount]; exact Nat.succ_pos _)
            show (if 0 < frame.pinCount then frame.pinCount - 1 else frame.pinCount).toNat = _
            rw [if_pos hpos, UInt32.toNat_sub_of_le _ _ (UInt32.le_iff_toNat_le.mpr (by
              rw [hpinCount]; exact Nat.succ_pos _)), hpinCount]
            rfl
          · rcases hsaved with hdirty | hpend | hdisk
            · exact .inl (by simp [hdirty])
            · rcases hpending _ hpend with hpend | ⟨-, hwrote⟩
              · exact .inr (.inl hpend)
              · -- the pin of a write is given back as dirty
                exact .inl (by simpa [hwrote] using Or.inr hdiscipline)
            · exact .inr (.inr hdisk)
          · rw [hcount i, if_neg (Ne.symm hi)]
            rfl
          · exact (hpending i hi').resolve_right fun h => hi h.1.symm
          · exact fun q hq => hu.pinned q (mem_of_mem_eraseIdx hq)
  · cases h

/-- A flush writes dirty frames, and all of them unless it fails. -/
theorem Consistent.flushLoop {select : PageId → Bool} {io : PageId → Write} {order : List PageId}
    {ok : Bool} (hu : u.Consistent)
    (h : Storage.flushLoop select io order u.storage = some (s, ok)) :
    { u with storage := s }.Consistent ∧ s.pool.pageTable = u.storage.pool.pageTable ∧
      (∀ idx f, s.pool.view idx = some f → f.dirty = true →
        ∃ g, u.storage.pool.view idx = some g ∧ g.dirty = true) ∧
      (ok = true → ∀ id ∈ order, select id = true → ∀ idx f,
        u.storage.pool.pageTable.lookup id = some idx → s.pool.view idx = some f →
        f.dirty = false) := by
  induction order generalizing u with
  | nil =>
    cases h
    exact ⟨hu, rfl, fun idx f hf hdirty => ⟨f, hf, hdirty⟩, fun _ id hid => by cases hid⟩
  | cons id rest ih =>
    unfold Storage.flushLoop at h
    split at h
    · cases h
    · next idx hid =>
      split at h
      · cases h
      · next frame hframe =>
        obtain ⟨hpageId, hpage, hpins, hsaved⟩ := hu.frame hid hframe
        have hview := view_of_frame hframe
        split at h
        · next hselect =>
          rw [Bool.and_eq_true] at hselect
          cases hio : io id with
          | failed left =>
            simp only [hio, Storage.writePage] at h
            cases h
            exact ⟨hu.failedWrite hview hpageId hselect.2, rfl,
              fun idx f hf hdirty => ⟨f, hf, hdirty⟩, fun h => by cases h⟩
          | done =>
            simp only [hio, Storage.writePage] at h
            have hset := BufferPool.view_setFrame hview { frame with dirty := false }
            have hnext :
                { u with storage := ⟨u.storage.pool.setFrame idx { frame with dirty := false },
                Function.update u.storage.disk id frame.page⟩ : Session }.Consistent :=
              hu.setFrame hid rfl hpageId hpage hpins
                (.inr (.inr ((update_self ..).trans hpage)))
                (fun i hi => ⟨rfl, update_of_ne hi .., rfl, fun h => h⟩) hu.pinned
            obtain ⟨hs, htable, hdirty, hall⟩ := ih hnext h
            refine ⟨hs, htable, fun k f hf hd => ?_, fun hok i hi hsel k f hk hf => ?_⟩
            · obtain ⟨g, hg, hgd⟩ := hdirty k f hf hd
              rw [hset] at hg
              split at hg
              · cases hg
                cases hgd
              · exact ⟨g, hg, hgd⟩
            · rcases mem_cons.mp hi with rfl | hi
              · rw [← Bool.not_eq_true]
                intro hd
                obtain ⟨g, hg, hgd⟩ := hdirty k f hf hd
                rw [hset, if_pos (Option.some.inj (hk.symm.trans hid))] at hg
                cases hg
                cases hgd
              · exact hall hok i hi hsel k f hk hf
        · next hselect =>
          obtain ⟨hs, htable, hdirty, hall⟩ := ih hu h
          refine ⟨hs, htable, hdirty, fun hok i hi hsel k f hk hf => ?_⟩
          rcases mem_cons.mp hi with rfl | hi
          · rw [← Bool.not_eq_true]
            intro hd
            obtain ⟨g, hg, hgd⟩ := hdirty k f hf hd
            cases hk.symm.trans hid
            cases hview.symm.trans hg
            exact hselect (by rw [hsel]; exact hgd)
          · exact hall hok i hi hsel k f hk hf

/-- A successful flush of all pages leaves no dirty frame. -/
theorem Consistent.flushAll (hu : u.Consistent) {order : List PageId} {io : PageId → Write}
    (h : u.storage.flushAll order io = some (s, true))
    (hnot : ¬ Pending u.pins id) : s.disk id = u.contents id := by
  unfold Storage.flushAll at h
  split at h
  · next horder =>
    obtain ⟨hs, htable, -, hall⟩ := hu.flushLoop h
    cases hid : s.pool.pageTable.lookup id with
    | none => exact (hs.away id hid).1
    | some idx =>
      obtain ⟨f, hf, -, -, -, hsaved⟩ := hs.mapped id idx hid
      rw [htable] at hid
      have hmem : id ∈ order := (isPerm_iff.mp horder).mem_iff.mpr
        (AList.mem_keys.mp (AList.lookup_isSome.mp (by rw [hid]; rfl)))
      refine (hsaved.resolve_left ?_).resolve_left hnot
      rw [hall rfl id hmem rfl idx f hid hf]
      exact Bool.false_ne_true
  · cases h

theorem Consistent.step (hu : u.Consistent) (hkept : u.StepKept op)
    (h : u.step op = some v) : v.Consistent := by
  cases op with
  | newPage tableId io =>
    obtain ⟨r, hr, rfl⟩ := map_eq_some_iff.mp h
    exact hu.newPage hkept hr
  | fetchPage id io =>
    obtain ⟨r, hr, rfl⟩ := map_eq_some_iff.mp h
    exact hu.fetchPage hkept hr
  | write k page => exact hu.write h
  | unpin k dirty => exact hu.unpin h
  | flushTable | flushAll =>
    obtain ⟨r, hr, rfl⟩ := map_eq_some_iff.mp h
    simp only [Storage.flushTable, Storage.flushAll] at hr
    split at hr
    · exact (hu.flushLoop hr).1
    · cases hr

/-! ## The pool is a store -/

/-- No frame is mapped under two ids, and what is not on the disk is in a frame that is dirty or
that its writer still has pinned. -/
def Safe (u : Session) : Prop :=
  (∀ i j idx, u.storage.pool.pageTable.lookup i = some idx →
    u.storage.pool.pageTable.lookup j = some idx → i = j) ∧
  ∀ id, u.storage.disk id = u.contents id ∨ ∃ idx f,
    u.storage.pool.pageTable.lookup id = some idx ∧ u.storage.pool.frames[idx]? = some f ∧
    f.page = u.contents id ∧ (f.dirty = true ∨ Pending u.pins id)

/-- A fetch that succeeds finds what was last written; a flush of everything that succeeds leaves it
on the disk, where its writer has given the page back. -/
def Answers (u : Session) : PoolOp → Prop
  | .fetchPage id io => ∀ s idx, u.storage.fetchPage id io = some (s, some idx) →
    ∃ f, s.pool.frames[idx]? = some f ∧ f.page = u.contents id
  | .flushAll order io => ∀ s, u.storage.flushAll order io = some (s, true) →
    ∀ id, ¬ Pending u.pins id → s.disk id = u.contents id
  | _ => True

theorem Consistent.exists_frame (hu : u.Consistent)
    (hid : u.storage.pool.pageTable.lookup id = some idx) :
    ∃ f, u.storage.pool.frames[idx]? = some f ∧ f.pageId = some id ∧ f.page = u.contents id ∧
      (f.dirty = true ∨ Pending u.pins id ∨ u.storage.disk id = u.contents id) := by
  obtain ⟨f, hf, -⟩ := hu.mapped id idx hid
  obtain ⟨g, hg, -⟩ := map_eq_some_iff.mp hf
  obtain ⟨hpageId, hpage, -, hsaved⟩ := hu.frame hid hg
  exact ⟨g, hg, hpageId, hpage, hsaved⟩

theorem Consistent.safe (hu : u.Consistent) : u.Safe := by
  refine ⟨fun i j idx hi hj => ?_, fun id => ?_⟩
  · obtain ⟨f, hf, hfi, -⟩ := hu.exists_frame hi
    obtain ⟨g, hg, hgj, -⟩ := hu.exists_frame hj
    cases hf.symm.trans hg
    exact Option.some.inj (hfi.symm.trans hgj)
  · cases hid : u.storage.pool.pageTable.lookup id with
    | none => exact .inl (hu.away id hid).1
    | some idx =>
      obtain ⟨f, hf, -, hpage, hsaved⟩ := hu.exists_frame hid
      rcases or_assoc.mpr hsaved with hframe | hdisk
      · exact .inr ⟨idx, f, rfl, hf, hpage, hframe⟩
      · exact .inl hdisk

theorem Consistent.answers (hu : u.Consistent) (hkept : u.StepKept op) : u.Answers op := by
  cases op with
  | fetchPage id io =>
    intro s idx h
    have hs := hu.fetchPage hkept h
    obtain ⟨f, hf, -, hpage, -⟩ := hs.exists_frame (hs.pinned _ mem_cons_self idx rfl)
    exact ⟨f, hf, hpage⟩
  | flushAll order io => exact fun s h id => hu.flushAll h
  | newPage | write | unpin | flushTable => trivial

/-- **The buffer pool refines a store of pages.** In every run whose reads only fail where the
victim is a free frame, every state is safe and every operation is answered as the store would. -/
theorem session_refines (capacity : Nat) (disk : PageId → Page) (ops : List PoolOp)
    (h : Run.Along step StepKept (start capacity disk) ops) :
    ∀ pre, pre <+: ops → ∀ u, Run.run step (start capacity disk) pre = some u →
      u.Safe ∧ ∀ op, u.StepKept op → u.Answers op := by
  intro pre hpre u hu
  have := Run.invariant_of_along (fun _ _ _ hu hkept => hu.step hkept) consistent_start h
    pre hpre u hu
  exact ⟨this.safe, fun _ => this.answers⟩

instance (u : Session) (id : PageId) (io : FetchIo) : Decidable (u.FetchKept id io) := by
  unfold FetchKept
  split <;> infer_instance

instance (u : Session) (op : PoolOp) : Decidable (u.StepKept op) := by
  cases op <;> unfold StepKept <;> infer_instance

/-- A page that is known by its number of rows. -/
def rowsPage (n : UInt64) : Page :=
  { Page.new with header := { Page.new.header with rowCount := n } }

def emptyDisk : PageId → Page := fun _ => .new

/-- A page is fetched, written and given back. -/
def writeThrough (n : UInt64) : List PoolOp :=
  [.fetchPage ⟨1, 0⟩ ⟨.done, true⟩, .write 0 (rowsPage n), .unpin 0 true]

theorem session_refines_writeThrough : ∃ u s,
    Run.run step (start 1 emptyDisk) (writeThrough 7) = some u ∧
    u.storage.flushAll [⟨1, 0⟩] (fun _ => .done) = some (s, true) ∧ s.disk ⟨1, 0⟩ = rowsPage 7 := by
  have hrun : (Run.run step (start 1 emptyDisk) (writeThrough 7)).any (fun u => u.pins = [] ∧
      u.contents ⟨1, 0⟩ = rowsPage 7 ∧
      (u.storage.flushAll [⟨1, 0⟩] fun _ => .done).any (·.2)) = true := by
    decide +kernel
  obtain ⟨u, hu, hshown⟩ := (Option.any_eq_true _ _).mp hrun
  obtain ⟨hpins, hcontents, hflush⟩ := of_decide_eq_true hshown
  obtain ⟨⟨s, ok⟩, hs, rfl⟩ := (Option.any_eq_true _ _).mp hflush
  have hsafe :=
    session_refines 1 emptyDisk (writeThrough 7) (by decide +kernel) _ (prefix_refl _) u hu
  refine ⟨u, s, hu, hs, ?_⟩
  rw [← hcontents]
  exact hsafe.2 (.flushAll _ _) trivial s hs _ (by simp [hpins, Pending])

/-- **A pin keeps its page.** In every state of such a run, the frame a client got has the page,
with what was last written to it, and counts the pins on it. -/
theorem pinned_frame_kept {capacity : Nat} {ops pre : List PoolOp}
    (h : Run.Along step StepKept (start capacity disk) ops) (hpre : pre <+: ops)
    (hu : Run.run step (start capacity disk) pre = some u) {p : Pin} (hp : p ∈ u.pins)
    (hidx : p.frame = some idx) : ∃ f, u.storage.pool.frames[idx]? = some f ∧
      f.pageId = some p.id ∧ f.page = u.contents p.id ∧ f.pinCount.toNat = pinsOn u.pins p.id := by
  have hcons := Run.invariant_of_along (fun _ _ _ hu hkept => hu.step hkept) consistent_start h
    pre hpre u hu
  have hid := hcons.pinned p hp idx hidx
  obtain ⟨f, hf, -⟩ := hcons.exists_frame hid
  obtain ⟨hpageId, hpage, hcount, -⟩ := hcons.frame hid hf
  exact ⟨f, hf, hpageId, hpage, hcount⟩

theorem pinned_frame_kept_written : ∃ u f,
    Run.run step (start 1 emptyDisk) ((writeThrough 7).take 2) = some u ∧
      u.storage.pool.frames[0]? = some f ∧ f.page = u.contents ⟨1, 0⟩ := by
  have hrun : (Run.run step (start 1 emptyDisk) ((writeThrough 7).take 2)).any
      (⟨⟨1, 0⟩, some 0, true⟩ ∈ ·.pins) = true := by decide +kernel
  obtain ⟨u, hu, hp⟩ := (Option.any_eq_true _ _).mp hrun
  obtain ⟨f, hf, -, hpage, -⟩ := pinned_frame_kept (by decide +kernel)
    (prefix_refl _) hu (of_decide_eq_true hp) rfl
  exact ⟨u, f, hu, hf, hpage⟩

/-- The read of a third page fails after its victim, the frame of a dirty page, has left the page
table. The page is then written in the other frame, and the first one later written over it. -/
theorem flushAll_leaves_stale : ∃ u s,
    Run.run step (start 2 emptyDisk) (writeThrough 1 ++
      [.fetchPage ⟨1, 1⟩ ⟨.done, true⟩, .unpin 0 false, .fetchPage ⟨1, 2⟩ ⟨.done, false⟩] ++
      writeThrough 2 ++ [.fetchPage ⟨1, 2⟩ ⟨.done, true⟩, .unpin 0 false]) = some u ∧
    u.pins = [] ∧ u.contents ⟨1, 0⟩ = rowsPage 2 ∧
    u.storage.flushAll [⟨1, 2⟩] (fun _ => .done) = some (s, true) ∧ s.disk ⟨1, 0⟩ = rowsPage 1 := by
  have hrun : (Run.run step (start 2 emptyDisk) (writeThrough 1 ++
      [.fetchPage ⟨1, 1⟩ ⟨.done, true⟩, .unpin 0 false, .fetchPage ⟨1, 2⟩ ⟨.done, false⟩] ++
      writeThrough 2 ++ [.fetchPage ⟨1, 2⟩ ⟨.done, true⟩, .unpin 0 false])).any (fun u =>
      u.pins = [] ∧ u.contents ⟨1, 0⟩ = rowsPage 2 ∧
      (u.storage.flushAll [⟨1, 2⟩] fun _ => .done).any fun r =>
        r.2 = true ∧ r.1.disk ⟨1, 0⟩ = rowsPage 1) = true := by
    decide +kernel
  obtain ⟨u, hu, hshown⟩ := (Option.any_eq_true _ _).mp hrun
  obtain ⟨hpins, hcontents, hflush⟩ := of_decide_eq_true hshown
  obtain ⟨⟨s, ok⟩, hs, hstale⟩ := (Option.any_eq_true _ _).mp hflush
  obtain ⟨rfl, hstale⟩ := of_decide_eq_true hstale
  exact ⟨u, s, hu, hpins, hcontents, hs, hstale⟩

end Session

end TensorVault
