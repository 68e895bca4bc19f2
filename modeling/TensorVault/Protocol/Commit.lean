import Mathlib.Data.List.Pairwise
import Mathlib.Order.MinMax
import TensorVault.Engine.Value
import TensorVault.Protocol.Clock

/-!
# Commit records

`commit` takes a timestamp from the clock of the node and appends a record to its log, whose payload
is the physical part of the timestamp alone. `commitLog_recoverable_iff` says when the payloads
still give the order of the commits: the physical clock must have advanced between any two records.
-/

namespace TensorVault.Protocol

open List

/-! ## Records -/

/-- `WalRecord` of `storage/wal.rs`. -/
structure LogRecord where
  txnId : UInt64
  /-- 0 is a commit. -/
  recordType : UInt8
  payload : List UInt8
  deriving DecidableEq, Repr

/-- `u64::to_le_bytes`. -/
def leBytes (n : UInt64) : List UInt8 :=
  (List.range 8).map fun i => UInt8.ofNat (n.toNat / 256 ^ i)

theorem leCell_leBytes {n : UInt64} : leCell (leBytes n) = n := by
  have hlt := n.toNat_lt
  apply UInt64.toNat_inj.mp
  simp only [leCell, leBytes, List.range, List.range.loop, map_cons, map_nil,
    take_succ_cons, take_zero, foldr_cons, foldr_nil, UInt64.toNat_add,
    UInt64.toNat_mul, UInt8.toNat_toUInt64, UInt8.toNat_ofNat']
  rw [show (256 : UInt64).toNat = 256 from rfl, show (0 : UInt64).toNat = 0 from rfl]
  omega

def commitRecord (txnId : UInt64) (ts : HlcTimestamp) : LogRecord where
  txnId := txnId
  recordType := 0
  payload := leBytes ts.physicalNs

inductive CommitError where
  | protocol (msg : String)
  | io
  deriving DecidableEq, Repr

/-- What the log file does during a commit. -/
structure Disk where
  canAppend : Bool
  canSync : Bool
  deriving DecidableEq, Repr

/-- A call of `commit`, with the reading of the physical clock. -/
structure Call where
  txnId : UInt64
  pt : UInt64
  disk : Disk
  deriving DecidableEq, Repr

/-- The log, and the answer: append the record, then sync. -/
def appendAndSync (log : List LogRecord) (call : Call) (ts : HlcTimestamp) :
    List LogRecord × Except CommitError HlcTimestamp :=
  if !call.disk.canAppend then (log, .error .io)
  else (log ++ [commitRecord call.txnId ts], if call.disk.canSync then .ok ts else .error .io)

/-! ## The coordinators -/

structure RaftCoordinator where
  clusterSize : Nat
  nodeId : UInt64
  clock : HlcClock
  wal : Option (List LogRecord)
  isLeader : Bool
  deriving DecidableEq, Repr

/-- `RaftCoordinator::commit`. -/
def RaftCoordinator.commit (r : RaftCoordinator) (call : Call) :
    RaftCoordinator × Except CommitError HlcTimestamp :=
  if !r.isLeader then
    (r, .error
      (.protocol ("node " ++ toString r.nodeId ++ " is not the leader; cannot commit txn " ++
      toString call.txnId)))
  else
    let clock := r.clock.now call.pt
    match r.wal with
    | none => ({ r with clock }, .ok clock.last)
    | some log =>
      let (log, answer) := appendAndSync log call clock.last
      ({ r with clock, wal := some log }, answer)

structure CxlCoordinator where
  available : Bool
  clock : HlcClock
  wal : Option (List LogRecord)
  deriving DecidableEq, Repr

/-- `CxlCoordinator::commit`. -/
def CxlCoordinator.commit (c : CxlCoordinator) (call : Call) :
    CxlCoordinator × Except CommitError HlcTimestamp :=
  let clock := c.clock.now call.pt
  if c.available then ({ c with clock }, .ok clock.last)
  else
    match c.wal with
    | none => ({ c with clock }, .ok clock.last)
    | some log =>
      let (log, answer) := appendAndSync log call clock.last
      ({ c with clock, wal := some log }, answer)

/-! ## Peaks of the physical clock -/

/-- A timestamp taken for a commit, and whether the record reached the log. -/
structure Entry where
  pt : UInt64
  recorded : Bool
  deriving DecidableEq, Repr

variable {p : Nat} {es : List Entry} {q : Nat}

/-- The latest physical time after some readings. -/
def peak (p : Nat) (es : List Entry) : Nat := es.foldl (fun m e => max m e.pt.toNat) p

/-- The physical times that are recorded. -/
def recordedTimes (p : Nat) : List Entry → List Nat
  | [] => []
  | e :: es =>
    let p' := max p e.pt.toNat
    if e.recorded then p' :: recordedTimes p' es else recordedTimes p' es

theorem lt_peak_iff : q < peak p es ↔ q < p ∨ ∃ e ∈ es, q < e.pt.toNat := by
  induction es generalizing p with
  | nil => simp [peak]
  | cons e es ih =>
    have hstep : peak p (e :: es) = peak (max p e.pt.toNat) es := rfl
    rw [hstep, ih, lt_max_iff, exists_mem_cons_iff, or_assoc]

theorem peak_lt_iff : peak p es < q ↔ p < q ∧ ∀ e ∈ es, e.pt.toNat < q := by
  induction es generalizing p with
  | nil => simp [peak]
  | cons e es ih =>
    have hstep : peak p (e :: es) = peak (max p e.pt.toNat) es := rfl
    rw [hstep, ih, max_lt_iff, forall_mem_cons, and_assoc]

theorem mem_recordedTimes : q ∈ recordedTimes p es ↔
    ∃ mid y post, es = mid ++ y :: post ∧ y.recorded = true ∧ q = peak p (mid ++ [y]) := by
  induction es generalizing p with
  | nil => simp [recordedTimes]
  | cons e es ih =>
    have hmem : q ∈ recordedTimes p (e :: es) ↔
        (e.recorded = true ∧ q = max p e.pt.toNat) ∨ q ∈ recordedTimes (max p e.pt.toNat) es := by
      cases he : e.recorded <;> simp [recordedTimes, he]
    rw [hmem, ih]
    constructor
    · rintro (⟨he, rfl⟩ | ⟨mid, y, post, rfl, hy, rfl⟩)
      · exact ⟨[], e, es, rfl, he, rfl⟩
      · exact ⟨e :: mid, y, post, rfl, hy, rfl⟩
    · rintro ⟨mid, y, post, hsplit, hy, rfl⟩
      cases mid with
      | nil =>
        cases hsplit
        exact .inl ⟨hy, rfl⟩
      | cons x mid =>
        cases hsplit
        exact .inr ⟨mid, y, post, rfl, hy, rfl⟩

/-- Between any two records the physical clock shows a time later than any before. -/
def Advances (p : Nat) (es : List Entry) : Prop :=
  ∀ pre x mid y post, es = pre ++ x :: (mid ++ y :: post) → x.recorded = true → y.recorded = true →
    ∃ z ∈ mid ++ [y], p < z.pt.toNat ∧ ∀ w ∈ pre ++ [x], w.pt.toNat < z.pt.toNat

/-- The condition, by peaks. -/
theorem advances_iff_peak : Advances p es ↔
    ∀ pre x mid y post, es = pre ++ x :: (mid ++ y :: post) → x.recorded = true →
      y.recorded = true → peak p (pre ++ [x]) < peak (peak p (pre ++ [x])) (mid ++ [y]) := by
  refine forall_congr' fun pre => forall_congr' fun x => forall_congr' fun mid =>
    forall_congr' fun y => forall_congr' fun post => ?_
  rw [lt_peak_iff]
  simp [peak_lt_iff]

theorem pairwise_recordedTimes_iff : (recordedTimes p es).Pairwise (· < ·) ↔ Advances p es := by
  rw [advances_iff_peak]
  induction es generalizing p with
  | nil => simp [recordedTimes]
  | cons e es ih =>
    have hpairwise : (recordedTimes p (e :: es)).Pairwise (· < ·) ↔
        (e.recorded = true → ∀ q ∈ recordedTimes (max p e.pt.toNat) es, max p e.pt.toNat < q) ∧
          (recordedTimes (max p e.pt.toNat) es).Pairwise (· < ·) := by
      cases he : e.recorded <;> simp [recordedTimes, he]
    rw [hpairwise, ih]
    constructor
    · rintro ⟨hfirst, hrest⟩ pre x mid y post hsplit hx hy
      cases pre with
      | nil =>
        cases hsplit
        exact hfirst hx _ (mem_recordedTimes.mpr ⟨mid, y, post, rfl, hy, rfl⟩)
      | cons w pre =>
        cases hsplit
        exact hrest pre x mid y post rfl hx hy
    · intro h
      refine ⟨fun he q hq => ?_, fun pre x mid y post hsplit => ?_⟩
      · obtain ⟨mid, y, post, rfl, hy, rfl⟩ := mem_recordedTimes.mp hq
        exact h [] e mid y post rfl he hy
      · exact h (e :: pre) x mid y post (congrArg (e :: ·) hsplit)

/-! ## Runs -/

/-- A record of the log with the answer its commit gave. -/
structure Logged where
  record : LogRecord
  answer : Except CommitError HlcTimestamp

section Runs

variable {σ : Type} (commit : σ → Call → σ × Except CommitError HlcTimestamp)
    (log : σ → List LogRecord)

/-- The records that a sequence of commits appends. -/
def logged : σ → List Call → List Logged
  | _, [] => []
  | s, call :: calls =>
    let (s', answer) := commit s call
    ((log s').drop (log s).length).map (fun record => { record, answer }) ++ logged s' calls

/-- The log gives the commits in their order, and tells apart what they returned. -/
structure Recoverable (ls : List Logged) : Prop where
  increasing : ls.Pairwise fun a b => leCell a.record.payload < leCell b.record.payload
  distinct : ∀ a ∈ ls, ∀ b ∈ ls, ∀ ta tb, a.answer = .ok ta → b.answer = .ok tb → ta ≠ tb →
    a.record.payload ≠ b.record.payload

variable {commit log} {clock : σ → HlcClock} {entry : σ → Call → Option Entry} {s : σ}
  {calls : List Call}

/-- What a commit does: nothing, or it takes a timestamp from the clock and appends its record,
unless there is no log or it cannot be written. Which of these depends on the call and on parts of
the node that no commit changes. -/
structure Commits (commit : σ → Call → σ × Except CommitError HlcTimestamp)
    (log : σ → List LogRecord) (clock : σ → HlcClock) (entry : σ → Call → Option Entry) : Prop where
  idle : ∀ s call, entry s call = none →
    clock (commit s call).1 = clock s ∧ log (commit s call).1 = log s
  taken : ∀ s call e, entry s call = some e → clock (commit s call).1 = (clock s).now e.pt ∧
    log (commit s call).1 = log s ++
      if e.recorded then [commitRecord call.txnId ((clock s).now e.pt).last] else []
  stable : ∀ s call, entry (commit s call).1 = entry s

theorem toNat_physicalNs_now {c : HlcClock} {pt : UInt64} :
    (c.now pt).last.physicalNs.toNat = max c.last.physicalNs.toNat pt.toNat := by
  unfold HlcClock.now
  split
  · next h =>
    rw [UInt64.lt_iff_toNat_lt] at h
    exact (max_eq_right h.le).symm
  · next h =>
    rw [UInt64.lt_iff_toNat_lt, not_lt] at h
    exact (max_eq_left h).symm

/-- The payloads are the peaks of the physical clock. -/
theorem map_payload_logged (h : Commits commit log clock entry) :
    (logged commit log s calls).map (fun l => (leCell l.record.payload).toNat) =
      recordedTimes (clock s).last.physicalNs.toNat (calls.filterMap (entry s)) := by
  induction calls generalizing s with
  | nil => rfl
  | cons call calls ih =>
    rw [logged, map_append, ih, h.stable]
    cases he : entry s call with
    | none =>
      obtain ⟨hclock, hlog⟩ := h.idle s call he
      simp [hclock, hlog, he]
    | some e =>
      obtain ⟨hclock, hlog⟩ := h.taken s call e he
      rw [hclock, hlog, toNat_physicalNs_now, filterMap_cons, he]
      cases hrecorded : e.recorded <;>
        simp [recordedTimes, hrecorded, commitRecord, leCell_leBytes, toNat_physicalNs_now]

theorem recoverable_iff (h : Commits commit log clock entry) :
    Recoverable (logged commit log s calls) ↔
      Advances (clock s).last.physicalNs.toNat (calls.filterMap (entry s)) := by
  rw [← pairwise_recordedTimes_iff, ← map_payload_logged h, pairwise_map]
  constructor
  · intro hrec
    exact hrec.increasing.imp fun hlt => UInt64.lt_iff_toNat_lt.mp hlt
  · intro hpairwise
    refine ⟨hpairwise.imp fun hlt => UInt64.lt_iff_toNat_lt.mpr hlt, ?_⟩
    intro a ha b hb ta tb hta htb hne hpayload
    have hab : a ≠ b := by
      rintro rfl
      rw [hta] at htb
      exact hne (Except.ok.inj htb)
    have hdistinct : (logged commit log s calls).Pairwise fun a b =>
        leCell a.record.payload ≠ leCell b.record.payload :=
      hpairwise.imp fun hlt heq => by rw [heq] at hlt; exact lt_irrefl _ hlt
    have : Std.Symm fun a b : Logged => leCell a.record.payload ≠ leCell b.record.payload :=
      ⟨fun _ _ hxy heq => hxy heq.symm⟩
    exact hdistinct.forall ha hb hab (congrArg leCell hpayload)

end Runs

/-! ## Both coordinators -/

namespace RaftCoordinator

def log (r : RaftCoordinator) : List LogRecord := r.wal.getD []

/-- A follower takes no timestamp. -/
def entry (r : RaftCoordinator) (call : Call) : Option Entry :=
  if r.isLeader then some
    { pt := call.pt, recorded := r.wal.isSome && call.disk.canAppend } else none

theorem commits : Commits commit log clock entry where
  idle r call h := by
    cases hleader : r.isLeader with
    | true => simp [entry, hleader] at h
    | false => simp [commit, hleader]
  taken r call e h := by
    cases hleader : r.isLeader with
    | false => simp [entry, hleader] at h
    | true =>
      simp only [entry, hleader, if_true, Option.some.injEq] at h
      subst h
      cases hwal : r.wal with
      | none => simp [commit, hleader, hwal, log]
      | some old =>
        cases hdisk : call.disk.canAppend <;>
          simp [commit, hleader, hwal, log, appendAndSync, hdisk]
  stable r call := by
    funext call'
    cases hleader : r.isLeader <;> cases hwal : r.wal <;> simp [entry, commit, hleader, hwal]

end RaftCoordinator

namespace CxlCoordinator

def log (c : CxlCoordinator) : List LogRecord := c.wal.getD []

/-- With CXL hardware nothing is logged. -/
def entry (c : CxlCoordinator) (call : Call) : Option Entry :=
  some { pt := call.pt, recorded := !c.available && c.wal.isSome && call.disk.canAppend }

theorem commits : Commits commit log clock entry where
  idle c call h := by cases h
  taken c call e h := by
    cases h
    cases havailable : c.available with
    | true => simp [commit, havailable, log]
    | false =>
      cases hwal : c.wal with
      | none => simp [commit, havailable, hwal, log]
      | some old =>
        cases hdisk : call.disk.canAppend <;>
          simp [commit, havailable, hwal, log, appendAndSync, hdisk]
  stable c call := by
    funext call'
    cases havailable : c.available <;> cases hwal : c.wal <;>
      simp [entry, commit, havailable, hwal]

end CxlCoordinator

/-- The log of a coordinator gives the order of its commits if and only if the physical clock
advances between any two records. -/
theorem commitLog_recoverable_iff (r : RaftCoordinator) (c : CxlCoordinator) (calls : List Call) :
    (Recoverable (logged RaftCoordinator.commit RaftCoordinator.log r calls) ↔
      Advances r.clock.last.physicalNs.toNat (calls.filterMap r.entry)) ∧
    (Recoverable (logged CxlCoordinator.commit CxlCoordinator.log c calls) ↔
      Advances c.clock.last.physicalNs.toNat (calls.filterMap c.entry)) :=
  ⟨recoverable_iff RaftCoordinator.commits, recoverable_iff CxlCoordinator.commits⟩

/-- Two commits in one tick of the physical clock leave equal payloads. -/
theorem sameTick_not_recoverable :
    let calls : List Call := [⟨1, 5, ⟨true, true⟩⟩, ⟨2, 5, ⟨true, true⟩⟩]
    let leader : RaftCoordinator := ⟨3, 0, .new, some [], true⟩
    let cxl : CxlCoordinator := ⟨false, .new, some []⟩
    ¬ Recoverable (logged RaftCoordinator.commit RaftCoordinator.log leader calls) ∧
      ¬ Recoverable (logged CxlCoordinator.commit CxlCoordinator.log cxl calls) := by
  refine ⟨fun h => absurd h.increasing ?_, fun h => absurd h.increasing ?_⟩ <;> decide +kernel

end TensorVault.Protocol
