import Mathlib.Data.List.AList
import TensorVault.Lib.Run

/-!
# The MVCC transaction manager

`txn/mvcc.rs` decides in two places what a transaction sees. `is_visible` asks whether a transaction
id was committed in the snapshot taken at BEGIN; `is_row_visible` asks the map of commit states, as
it is now, about the two ids of a row version.

* `rowVisible_agrees_iff` — for which row versions the two notions agree
* `rowVisible_agrees_of_orderly` — they agree in every run in which nobody else is committed while a
  transaction is active
-/

namespace TensorVault.Mvcc

open List

/-! ## The manager -/

inductive TxnState where
  | inProgress
  | committed
  | aborted
  deriving DecidableEq, Repr

structure RowVersion where
  xmin : UInt64
  /-- 0 as long as the version is not deleted. -/
  xmax : UInt64
  deriving DecidableEq, Repr

abbrev CommitState := AList fun _ : UInt64 => TxnState

structure MvccTransaction where
  id : UInt64
  /-- The ids that were committed at BEGIN. -/
  snapshot : List UInt64

structure MvccTxnManager where
  commitState : CommitState
  active : Option MvccTransaction

variable {s : MvccTxnManager}

/-- Whether the map says that the id is committed. -/
def CommitState.isCommitted (m : CommitState) (id : UInt64) : Bool :=
  decide (m.lookup id = some .committed)

/-- `RowVersion::is_visible`. -/
def RowVersion.isVisible (v : RowVersion) (viewer : UInt64) (m : CommitState) : Bool :=
  let xminVisible := v.xmin == viewer || m.isCommitted v.xmin
  if !xminVisible then false
  else if v.xmax == 0 then true
  else
    let xmaxVisible := v.xmax == viewer || m.isCommitted v.xmax
    !xmaxVisible

namespace MvccTxnManager

def new : MvccTxnManager where
  commitState := ∅
  active := none

/-- `begin`, with the id that the global counter hands out. -/
def begin (s : MvccTxnManager) (id : UInt64) : Except String (MvccTxnManager × UInt64) :=
  if s.active.isSome then
    .error "a transaction is already active (use SAVEPOINT for nested transactions)"
  else
    let snapshot := (s.commitState.entries.filter fun e => decide (e.2 = .committed)).map Sigma.fst
    .ok ({ commitState := s.commitState.insert id .inProgress, active := some { id, snapshot } },
      id)

/-- `commit` and `rollback`: the active transaction ends in the given state. -/
def finish (s : MvccTxnManager) (outcome : TxnState) : Except String (MvccTxnManager × UInt64) :=
  match s.active with
  | none => .error "no active transaction"
  | some txn =>
    .ok ({ commitState := s.commitState.insert txn.id outcome, active := none }, txn.id)

def commit (s : MvccTxnManager) : Except String (MvccTxnManager × UInt64) := s.finish .committed

def rollback (s : MvccTxnManager) : Except String (MvccTxnManager × UInt64) := s.finish .aborted

/-- `is_visible`. -/
def isVisible (s : MvccTxnManager) (id : UInt64) : Bool :=
  if s.active.any (·.id == id) then true
  else if s.commitState.isCommitted id then
    match s.active with
    | some txn => txn.snapshot.contains id
    | none => true
  else false

/-- `is_row_visible`. -/
def isRowVisible (s : MvccTxnManager) (v : RowVersion) : Bool :=
  v.isVisible ((s.active.map (·.id)).getD 0) s.commitState

/-- `cleanup_aborted`, with the number of states it removed. -/
def cleanupAborted (s : MvccTxnManager) : MvccTxnManager × Nat :=
  let kept : CommitState :=
    { entries := s.commitState.entries.filter fun e => decide (e.2 ≠ .aborted)
      nodupKeys := s.commitState.nodupKeys.sublist filter_sublist }
  ({ s with commitState := kept }, s.commitState.entries.length - kept.entries.length)

/-! ## The two notions -/

/-- What `is_row_visible` should say, by `is_visible`. -/
def seesRow (s : MvccTxnManager) (v : RowVersion) : Bool :=
  s.isVisible v.xmin && (v.xmax == 0 || !s.isVisible v.xmax)

def viewer (s : MvccTxnManager) : UInt64 := (s.active.map (·.id)).getD 0

/-- An id that the test of row versions counts as visible: the viewer's own, or a committed one. -/
def Counts (s : MvccTxnManager) (id : UInt64) : Prop :=
  id = s.viewer ∨ s.commitState.isCommitted id = true

/-- An id that counts, but is not in the snapshot: committed by someone else since BEGIN. Without an
active transaction the viewer is 0, which is nobody's id. -/
def Unseen (s : MvccTxnManager) (id : UInt64) : Prop :=
  match s.active with
  | some txn => id ≠ txn.id ∧ s.commitState.isCommitted id = true ∧ id ∉ txn.snapshot
  | none => id = 0 ∧ s.commitState.isCommitted id = false

variable (s : MvccTxnManager) {id : UInt64}

theorem isVisible_iff : s.isVisible id = true ↔ s.Counts id ∧ ¬ s.Unseen id := by
  cases hactive : s.active with
  | none =>
    cases hcommitted : s.commitState.isCommitted id <;>
      simp [isVisible, Counts, Unseen, viewer, hactive, hcommitted]
  | some txn =>
    by_cases hown : txn.id = id
    · simp [isVisible, Counts, Unseen, viewer, hactive, hown]
    · cases hcommitted : s.commitState.isCommitted id <;>
        simp [isVisible, Counts, Unseen, viewer, hactive, hcommitted, hown, Ne.symm hown]

theorem isRowVisible_iff (v : RowVersion) :
    s.isRowVisible v = true ↔ s.Counts v.xmin ∧ (v.xmax = 0 ∨ ¬ s.Counts v.xmax) := by
  have hviewer : (s.active.map (·.id)).getD 0 = s.viewer := rfl
  unfold isRowVisible RowVersion.isVisible Counts
  rw [hviewer]
  by_cases hmin : v.xmin = s.viewer ∨ s.commitState.isCommitted v.xmin = true
  · by_cases hmax : v.xmax = 0 <;> simp [hmin, hmax]
  · simp [hmin]

theorem seesRow_iff (v : RowVersion) :
    s.seesRow v = true ↔ (s.Counts v.xmin ∧ ¬ s.Unseen v.xmin) ∧
      (v.xmax = 0 ∨ ¬ (s.Counts v.xmax ∧ ¬ s.Unseen v.xmax)) := by
  rw [← isVisible_iff, ← isVisible_iff]
  simp [seesRow]

theorem counts_of_unseen (h : s.Unseen id) : s.Counts id := by
  unfold Unseen at h
  unfold Counts viewer
  cases hactive : s.active with
  | none =>
    rw [hactive] at h
    exact .inl h.1
  | some txn =>
    rw [hactive] at h
    exact .inr h.2.1

/-! ## `cleanup_aborted` -/

theorem isCommitted_cleanupAborted :
    s.cleanupAborted.1.commitState.isCommitted id = s.commitState.isCommitted id := by
  have hiff : s.cleanupAborted.1.commitState.lookup id = some .committed ↔
      s.commitState.lookup id = some .committed := by
    rw [← Option.mem_def, ← Option.mem_def, AList.mem_lookup_iff, AList.mem_lookup_iff]
    simp [cleanupAborted]
  exact decide_eq_decide.mpr hiff

theorem isVisible_cleanupAborted (id : UInt64) :
    s.cleanupAborted.1.isVisible id = s.isVisible id := by
  unfold isVisible
  rw [isCommitted_cleanupAborted]
  rfl

theorem isRowVisible_cleanupAborted {v : RowVersion} :
    s.cleanupAborted.1.isRowVisible v = s.isRowVisible v := by
  unfold isRowVisible RowVersion.isVisible
  rw [isCommitted_cleanupAborted, isCommitted_cleanupAborted]
  rfl

end MvccTxnManager

theorem isRowVisible_eq_iff {v : RowVersion} :
    s.isRowVisible v = s.seesRow v ↔
      (s.Unseen v.xmin → v.xmax ≠ 0 ∧ s.Counts v.xmax) ∧
      (s.Counts v.xmin → ¬ s.Unseen v.xmin → v.xmax ≠ 0 → ¬ s.Unseen v.xmax) := by
  have hmin : s.Unseen v.xmin → s.Counts v.xmin := s.counts_of_unseen
  have hmax : s.Unseen v.xmax → s.Counts v.xmax := s.counts_of_unseen
  rw [Bool.eq_iff_iff, s.isRowVisible_iff, s.seesRow_iff]
  by_cases hcounts : s.Counts v.xmax <;> by_cases hunseen : s.Unseen v.xmin <;> grind

/-- In every state the two notions agree about a row version if and only if an unseen `xmin` is
hidden by an `xmax` that counts, and a visible version has no unseen `xmax`. `cleanup_aborted`
changes neither notion. -/
theorem rowVisible_agrees_iff (s : MvccTxnManager) (v : RowVersion) :
    (s.isRowVisible v = s.seesRow v ↔
      (s.Unseen v.xmin → v.xmax ≠ 0 ∧ s.Counts v.xmax) ∧
      (s.Counts v.xmin → ¬ s.Unseen v.xmin → v.xmax ≠ 0 → ¬ s.Unseen v.xmax)) ∧
    s.cleanupAborted.1.isRowVisible v = s.isRowVisible v ∧
    ∀ id, s.cleanupAborted.1.isVisible id = s.isVisible id :=
  ⟨isRowVisible_eq_iff, s.isRowVisible_cleanupAborted, s.isVisible_cleanupAborted⟩

/-! ## Runs -/

/-- What can happen to a manager and the global counter. `mark` is the end of a transaction of
someone else, `elsewhere` a BEGIN of another manager. -/
inductive Action where
  | begin
  | commit
  | rollback
  | mark (id : UInt64) (state : TxnState)
  | elsewhere
  deriving DecidableEq, Repr

structure World where
  manager : MvccTxnManager
  nextTxnId : UInt64

def World.new : World where
  manager := .new
  nextTxnId := 1

/-- A request that fails changes nothing. Nobody else ends the active transaction. -/
def World.step (w : World) : Action → Option World
  | .begin =>
    match w.manager.begin w.nextTxnId with
    | .ok (s, _) => some { manager := s, nextTxnId := w.nextTxnId + 1 }
    | .error _ => some w
  | .commit =>
    match w.manager.commit with
    | .ok (s, _) => some { w with manager := s }
    | .error _ => some w
  | .rollback =>
    match w.manager.rollback with
    | .ok (s, _) => some { w with manager := s }
    | .error _ => some w
  | .mark id state =>
    if w.manager.active.any (·.id == id) then some w
    else some { w with manager.commitState := w.manager.commitState.insert id state }
  | .elsewhere => some { w with nextTxnId := w.nextTxnId + 1 }

/-- Nobody else commits while a transaction is active. -/
def Orderly (w : World) : Action → Prop
  | .mark _ .committed => w.manager.active = none
  | _ => True

/-- The snapshot has every committed id but the own. -/
def SnapshotComplete (s : MvccTxnManager) : Prop :=
  ∀ txn, s.active = some txn → ∀ id, id ≠ txn.id → s.commitState.isCommitted id = true →
    id ∈ txn.snapshot

variable {id : UInt64} {m : CommitState} {s' : MvccTxnManager}

theorem isCommitted_insert {state : TxnState} {other : UInt64} :
    CommitState.isCommitted (m.insert id state) other =
      if other = id then decide (state = .committed) else m.isCommitted other := by
  unfold CommitState.isCommitted
  split
  · next h =>
    subst h
    simp only [AList.lookup_insert, Option.some.injEq]
  · next h => rw [AList.lookup_insert_ne h]

theorem mem_snapshot_iff :
    id ∈ (m.entries.filter fun e => decide (e.2 = .committed)).map Sigma.fst ↔
      m.isCommitted id = true := by
  unfold CommitState.isCommitted
  rw [decide_eq_true_eq, ← Option.mem_def, AList.mem_lookup_iff]
  constructor
  · intro h
    obtain ⟨⟨id', state⟩, he, rfl⟩ := mem_map.mp h
    obtain ⟨hmem, hstate⟩ := mem_filter.mp he
    rw [decide_eq_true_eq] at hstate
    rwa [← hstate]
  · exact fun h => mem_map.mpr ⟨_, mem_filter.mpr ⟨h, by simp⟩, rfl⟩

theorem snapshotComplete_begin {id' : UInt64}
    (h : s.begin id = .ok (s', id')) : SnapshotComplete s' := by
  unfold MvccTxnManager.begin at h
  split at h
  · cases h
  · cases h
    intro txn htxn other hne hcommitted
    cases htxn
    rw [isCommitted_insert, if_neg hne] at hcommitted
    exact mem_snapshot_iff.mpr hcommitted

/-- Without an active transaction there is no snapshot. -/
theorem snapshotComplete_of_idle (h : s.active = none) : SnapshotComplete s := by
  intro txn htxn
  cases h.symm.trans htxn

theorem finish_idle {outcome : TxnState}
    (h : s.finish outcome = .ok (s', id)) : s'.active = none := by
  unfold MvccTxnManager.finish at h
  split at h
  · cases h
  · cases h
    rfl

theorem snapshotComplete_step (w : World) (a : Action) (w' : World)
    (h : SnapshotComplete w.manager) (ha : Orderly w a) (hstep : w.step a = some w') :
    SnapshotComplete w'.manager := by
  cases a with
  | begin =>
    simp only [World.step] at hstep
    split at hstep
    · next hbegin =>
      cases hstep
      exact snapshotComplete_begin hbegin
    · cases hstep
      exact h
  | commit | rollback =>
    simp only [World.step] at hstep
    split at hstep
    · next hfinish =>
      cases hstep
      exact snapshotComplete_of_idle (finish_idle hfinish)
    · cases hstep
      exact h
  | mark id state =>
    simp only [World.step] at hstep
    split at hstep
    · cases hstep
      exact h
    · cases hstep
      intro txn htxn other hne hcommitted
      rw [isCommitted_insert] at hcommitted
      split at hcommitted
      · -- nobody is marked committed now: a transaction is active
        rw [decide_eq_true_eq] at hcommitted
        subst hcommitted
        rw [show w.manager.active = none from ha] at htxn
        cases htxn
      · exact h txn htxn other hne hcommitted
  | elsewhere =>
    cases hstep
    exact h

/-- In every state of an orderly run the two notions agree about every row version with an `xmin`
that is somebody's id. -/
theorem rowVisible_agrees_of_orderly {as : List Action} (h : Run.Along World.step Orderly .new as) :
    ∀ pre, pre <+: as → ∀ w, Run.run World.step .new pre = some w →
      ∀ v : RowVersion, v.xmin ≠ 0 → w.manager.isRowVisible v = w.manager.seesRow v := by
  intro pre hpre w hw v hxmin
  have hcomplete : SnapshotComplete w.manager :=
    Run.invariant_of_along snapshotComplete_step (snapshotComplete_of_idle rfl) h pre hpre w hw
  have hseen : ∀ id, id ≠ 0 → ¬ w.manager.Unseen id := by
    intro id hid hunseen
    unfold MvccTxnManager.Unseen at hunseen
    cases hactive : w.manager.active with
    | none =>
      rw [hactive] at hunseen
      exact hid hunseen.1
    | some txn =>
      rw [hactive] at hunseen
      exact hunseen.2.2 (hcomplete txn hactive id hunseen.1 hunseen.2.1)
  exact isRowVisible_eq_iff.mpr
    ⟨fun hunseen => absurd hunseen (hseen _ hxmin), fun _ _ hxmax => hseen _ hxmax⟩

theorem rowVisible_agrees_in_txn : ∃ w,
    Run.run World.step .new [.mark 7 .committed, .begin] = some w ∧
      w.manager.isRowVisible { xmin := 7, xmax := 1 } = w.manager.seesRow
      { xmin := 7, xmax := 1 } :=
  ⟨_, rfl, @rowVisible_agrees_of_orderly [.mark 7 .committed, .begin]
    ⟨rfl, fun _ _ => ⟨trivial, fun _ _ => trivial⟩⟩ _ (prefix_refl _) _ rfl _ (by decide)⟩

/-- Transaction 2 of another manager commits while transaction 1 is active: its rows are visible,
and it is not. A row version without a creator is visible to nobody and still visible. -/
theorem late_commit_and_zero_visible :
    ∃ w, Run.run World.step .new [.begin, .elsewhere, .mark 2 .committed] = some w ∧
      w.manager.isRowVisible { xmin := 2, xmax := 0 } = true ∧
      w.manager.seesRow { xmin := 2, xmax := 0 } = false ∧
      MvccTxnManager.new.isRowVisible { xmin := 0, xmax := 0 } = true ∧
      MvccTxnManager.new.seesRow { xmin := 0, xmax := 0 } = false :=
  ⟨_, rfl, by decide, by decide, by decide, by decide⟩

end TensorVault.Mvcc
