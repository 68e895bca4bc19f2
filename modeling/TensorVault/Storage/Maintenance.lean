import TensorVault.Engine.Simulation
import TensorVault.Storage.Replay

/-!
# VACUUM and CHECKPOINT

VACUUM truncates the log, but nothing is ever read back from the table files, so what the log
restores is lost unless nothing in it counts (`NothingCounts`). A run goes on after a VACUUM as it
would have without it, so what is restored in the end is compared for two logs, of which the longer
starts with the records that were dropped (`maintenance_restores`).
-/

namespace TensorVault

open Run List Option

namespace QueryEngine

variable {F : Frontend}

open Wal

/-! ## A run with a shorter log -/

/-- The second log has the records `dropped` in front, or is the same. -/
def LongerBy (dropped : List WalRecord) (a b : Option (List WalRecord)) : Prop :=
  b = a ∨ b = a.map (dropped ++ ·)

variable {r : WalRecord} {dropped : List WalRecord} {H : Host} {n : Nat} {texts : List String}
  {live : UInt64 → Bool} {e : QueryEngine} {records : List WalRecord}

theorem LongerBy.append {a b : Option (List WalRecord)} (h : LongerBy dropped a b) :
    LongerBy dropped (a.map (· ++ [r])) (b.map (· ++ [r])) := by
  rcases h with rfl | rfl
  · exact .inl rfl
  · refine .inr ?_
    cases a with
    | none => rfl
    | some log => simp

def longerRel (dropped : List WalRecord) : LogRel where
  rel a b := b.nextId = a.nextId ∧ b.activeId = a.activeId ∧ LongerBy dropped a.wal b.wal
  ids i j := j = i
  autocommit := rfl
  append h hids sql := by
    subst hids
    exact ⟨h.1, h.2.1, h.2.2.append⟩
  beginTxn h := by
    obtain ⟨hnext, -, hwal⟩ := h
    simp only [LogPart.beginTxn, hnext]
    exact ⟨trivial, trivial, hwal.append⟩
  commit h hi hj := by
    obtain ⟨hnext, hactive, hwal⟩ := h
    rw [hactive, hi] at hj
    cases hj
    exact ⟨hnext, rfl, hwal.append⟩
  rollback h hi hj := by
    obtain ⟨hnext, hactive, hwal⟩ := h
    rw [hactive, hi] at hj
    cases hj
    exact ⟨hnext, rfl, hwal.append⟩
  truncate h := by
    refine ⟨h.1, h.2.1, .inl ?_⟩
    rcases h.2.2 with hwal | hwal
    · simp only [LogPart.truncate, hwal]
    · simp only [LogPart.truncate, hwal, Option.map_map]
      rfl
  enter h hi hj := by
    obtain ⟨hnext, hactive, hwal⟩ := h
    rw [hactive, hi] at hj
    exact ⟨⟨hnext, rfl, hwal⟩, hj.symm⟩
  leave h hids := ⟨h.1, by rw [hids], h.2.2⟩

theorem run_sim {R : LogRel} {e e' u' : QueryEngine}
    (h : Sim R e e') (hrun : run (sessionStep H F n) e' texts = some u') :
    ∃ u, run (sessionStep H F n) e texts = some u ∧ Sim R u u' := by
  induction texts generalizing e e' with
  | nil =>
    cases hrun
    exact ⟨e, rfl, h⟩
  | cons sql texts ih =>
    obtain ⟨v', hv', hrest⟩ := run_cons hrun
    obtain ⟨⟨w', r⟩, hreply', rfl⟩ := map_eq_some_iff.mp hv'
    have hsim := execute_sim H F R n h sql
    rw [hreply'] at hsim
    generalize hreply : execute H F n e sql = x at hsim
    cases hsim with
    | @some v _ hv r =>
      obtain ⟨u, hu, hsim⟩ := ih hv hrest
      have hstep : sessionStep H F n e sql = some v := by rw [sessionStep, hreply]; rfl
      exact ⟨u, by rw [run_cons_of_step hstep]; exact hu, hsim⟩

/-! ## Restoring from the shorter log -/

/-- The log restores nothing: its statements are those of transactions that are not committed. -/
def NothingCounts (log : List WalRecord) : Prop := ∀ p ∈ entries log, isLive log p.1 = false

/-- The ids of the records written later are not those of dropped ones. -/
def NewIds (dropped later : List WalRecord) : Prop :=
  ∀ r ∈ later, r.txnId ≠ 0 → ∀ s ∈ dropped, s.txnId ≠ r.txnId

/-- Replay does not look at the log of the engine it works on. -/
theorem replayRecord_setWal {wal : Option (List WalRecord)} :
    replayRecord H F n live { e with wal := wal } r =
      (replayRecord H F n live e r).map fun u => { u with wal := wal } := by
  unfold replayRecord
  split
  · rfl
  · split
    · rfl
    · split
      · rfl
      · simp only
        split <;> rfl

theorem run_replayRecord_setWal (H : Host) (F : Frontend) (n : Nat) (live : UInt64 → Bool)
    (e : QueryEngine) (wal : Option (List WalRecord)) (records : List WalRecord) :
    run (replayRecord H F n live) { e with wal := wal } records =
      (run (replayRecord H F n live) e records).map fun u => { u with wal := wal } := by
  induction records generalizing e with
  | nil => rfl
  | cons r records ih =>
    rw [run, run, replayRecord_setWal]
    cases replayRecord H F n live e r with
    | none => rfl
    | some u => exact ih u

/-- Records that do not count are passed over. -/
theorem run_replayRecord_dead (h : ∀ p ∈ entries records, live p.1 = false) :
    run (replayRecord H F n live) e records = some e := by
  induction records with
  | nil => rfl
  | cons r records ih =>
    have hentries : entries (r :: records) = entries [r] ++ entries records :=
      entries_append [r] records
    rw [hentries, forall_mem_append, entries_singleton] at h
    have hstep : replayRecord H F n live e r = some e := by
      unfold replayRecord
      split
      · rfl
      · next hroll =>
        by_cases hsql : r.sql = ""
        · simp [hsql]
        · have hone := h.1
          rw [if_pos ⟨by simpa using hroll, hsql⟩] at hone
          simp [hone _ (mem_singleton.mpr rfl)]
    rw [run_cons_of_step hstep]
    exact ih h.2

theorem run_replayRecord_congr {live' : UInt64 → Bool}
    (h : ∀ r ∈ records, live r.txnId = live' r.txnId) (e : QueryEngine) :
    run (replayRecord H F n live) e records = run (replayRecord H F n live') e records := by
  induction records generalizing e with
  | nil => rfl
  | cons r records ih =>
    have hstep : replayRecord H F n live e r = replayRecord H F n live' e r := by
      unfold replayRecord
      rw [h r mem_cons_self]
    rw [run, run, hstep]
    cases replayRecord H F n live' e r with
    | none => rfl
    | some u => exact ih (forall_mem_cons.mp h).2 u

theorem mem_ids_of_committed {log : List WalRecord} {id : UInt64} (h : id ∈ committedTxns log) :
    id ≠ 0 ∧ ∃ r ∈ log, r.txnId = id := by
  obtain ⟨r, hr, rfl⟩ := mem_map.mp h
  obtain ⟨hr, hcommit⟩ := mem_filter.mp hr
  simp only [Bool.and_eq_true, bne_iff_ne] at hcommit
  exact ⟨hcommit.2, r, hr, rfl⟩

/-- **The dropped records make no difference** to what is restored, if nothing in them counts and
the ids of later records are new. -/
theorem withDataDir_append {later : List WalRecord} (hnone : NothingCounts dropped)
    (hids : NewIds dropped later) {tick : Nat} :
    (withDataDir H F n tick (dropped ++ later)).map (·.catalog) =
      (withDataDir H F n tick later).map (·.catalog) := by
  have hdead : ∀ p ∈ entries dropped, isLive (dropped ++ later) p.1 = false := by
    intro p hp
    have hlive := hnone p hp
    simp only [isLive, Bool.or_eq_false_iff, contains_eq_mem, decide_eq_false_iff_not] at hlive ⊢
    refine ⟨hlive.1, fun hmem => ?_⟩
    rw [committedTxns_append] at hmem
    rcases mem_append.mp hmem with hmem | hmem
    · exact hlive.2 hmem
    · obtain ⟨h0, r, hr, heq⟩ := mem_ids_of_committed hmem
      obtain ⟨s, hs, hseq⟩ := mem_map.mp hp
      refine hids r hr (by rw [heq]; exact h0) s (mem_filter.mp hs).1 ?_
      rw [heq, ← hseq]
  have hsame : ∀ r ∈ later, isLive (dropped ++ later) r.txnId = isLive later r.txnId := by
    intro r hr
    by_cases h0 : r.txnId = 0
    · simp [isLive, h0]
    · have hnot : r.txnId ∉ committedTxns dropped := by
        intro hmem
        obtain ⟨-, s, hs, heq⟩ := mem_ids_of_committed hmem
        exact hids r hr h0 s hs heq
      simp [isLive, committedTxns_append, hnot]
  have hwal : ({ new with wal := some (dropped ++ later), tick } : QueryEngine) =
      { ({ new with wal := some later, tick } : QueryEngine) with
        wal := some (dropped ++ later) } := rfl
  unfold withDataDir replayWal
  rw [run_append, run_replayRecord_dead hdead, bind_some, run_replayRecord_congr hsame, hwal,
    run_replayRecord_setWal, Option.map_map]
  rfl

/-! ## The result -/

/-- An engine with a log keeps it. -/
def hasLogRel : LogRel where
  rel a _ := a.wal.isSome = true
  ids _ _ := True
  autocommit := trivial
  append h _ _ := by simpa [LogPart.append] using h
  beginTxn h := by simpa [LogPart.beginTxn] using h
  commit h _ _ := by simpa [LogPart.endTxn] using h
  rollback h _ _ := by simpa [LogPart.endTxn] using h
  truncate h := by simpa [LogPart.truncate] using h
  enter h _ _ := ⟨h, trivial⟩
  leave h _ := h

theorem wal_isSome_of_run {u : QueryEngine}
    (h : e.wal.isSome = true) (hrun : run (sessionStep H F n) e texts = some u) :
    u.wal.isSome = true := by
  obtain ⟨v, hv, hsim⟩ := run_sim (.mk rfl h : Sim hasLogRel e e) hrun
  cases hrun.symm.trans hv
  cases hsim with
  | mk _ hlog => exact hlog

/-- **Maintenance.** A VACUUM or CHECKPOINT put into a run does not stop it, and what the log
restores in the end is the same, provided that a VACUUM finds nothing that counts in the log it
truncates and no transaction after it gets an id of a record it dropped. -/
theorem maintenance_restores (H : Host) (F : Frontend) (n tick : Nat) (log₀ : List WalRecord)
    (e₀ : QueryEngine) (hopen : withDataDir H F n tick log₀ = some e₀) (pre : List String)
    (e₁ : QueryEngine) (hpre : run (sessionStep H F n) e₀ pre = some e₁) (sql : String)
    (hsql : outerRoute H sql = .vacuum ∨ outerRoute H sql = .checkpoint) (rest : List String)
    (e : QueryEngine) (hrun : run (sessionStep H F n) e₁ rest = some e) :
    ∃ e' log log', run (sessionStep H F n) e₁ (sql :: rest) = some e' ∧ e.wal = some log ∧
      e'.wal = some log' ∧
      ((outerRoute H sql = .vacuum →
          ∀ dropped, e₁.wal = some dropped → NothingCounts dropped ∧ NewIds dropped log') →
        ∀ m tick', (withDataDir H F m tick' log').map (·.catalog) =
          (withDataDir H F m tick' log).map (·.catalog)) := by
  have hsome₀ : e₀.wal.isSome = true := by
    have hwal : (run (replayRecord H F n (isLive log₀)) { new with wal := some log₀, tick } log₀) =
        some e₀ := hopen
    rw [run_replayRecord_setWal H F n (isLive log₀) { new with tick } (some log₀) log₀] at hwal
    obtain ⟨u, -, rfl⟩ := map_eq_some_iff.mp hwal
    rfl
  have hsome₁ := wal_isSome_of_run hsome₀ hpre
  obtain ⟨log, hlog⟩ := isSome_iff_exists.mp (wal_isSome_of_run hsome₁ hrun)
  rcases hsql with hroute | hroute
  · obtain ⟨dropped, hdropped⟩ := isSome_iff_exists.mp hsome₁
    have hstep : sessionStep H F n e₁ sql = some { e₁ with wal := some [] } := by
      simp [sessionStep, execute, executeStep, hroute, executeVacuum, reply, hdropped]
    have hstart : Sim (longerRel dropped) { e₁ with wal := some [] } e₁ := by
      refine .mk rfl ⟨rfl, rfl, .inr ?_⟩
      rw [hdropped]
      simp
    obtain ⟨e', hrun', hsim⟩ := run_sim hstart hrun
    obtain ⟨log', hlog'⟩ := isSome_iff_exists.mp
      (wal_isSome_of_run (e := { e₁ with wal := some [] }) rfl hrun')
    refine ⟨e', log, log', by rw [run_cons_of_step hstep]; exact hrun', hlog, hlog', ?_⟩
    intro hcond m tick'
    obtain ⟨hnone, hids⟩ := hcond hroute dropped hdropped
    have hlonger : LongerBy dropped e'.wal e.wal := by
      cases hsim with
      | mk _ h => exact h.2.2
    rw [hlog, hlog'] at hlonger
    rcases hlonger with heq | heq
    · rw [Option.some.inj heq]
    · rw [Option.some.inj heq]
      exact (withDataDir_append hnone hids).symm
  · have hstep : sessionStep H F n e₁ sql = some e₁ := by
      simp [sessionStep, execute, executeStep, hroute, reply]
    exact ⟨e, log, log, by rw [run_cons_of_step hstep]; exact hrun, hlog, hlog, fun _ _ _ => rfl⟩

/-- What is needed of a run with a VACUUM after a transaction that was rolled back. -/
theorem rolledBack_vacuum_run :
    outerRoute Host.ascii "VACUUM" = .vacuum ∧
    ((run (sessionStep Host.ascii Frontend.closed 0) { new with wal := some [], tick := 0 }
        ["BEGIN", "CREATE TABLE u (b INT)", "ROLLBACK"]).bind fun e₁ =>
      ((run (sessionStep Host.ascii Frontend.closed 0) e₁ ["CREATE TABLE t (a INT)"]).map
        fun _ => (e₁.wal,
          (run (sessionStep Host.ascii Frontend.closed 0) e₁
            ["VACUUM", "CREATE TABLE t (a INT)"]).map (·.wal)))) =
      some (some [.beginTxn 1, statementRecord "CREATE TABLE u (b INT)" (some 1), .rollback 1],
        some (some [.autocommit "CREATE TABLE t (a INT)"])) := by
  decide +kernel

theorem rolledBack_vacuum_restores :
    ∃ e₁ e e' log log',
      run (sessionStep Host.ascii Frontend.closed 0) { new with wal := some [], tick := 0 }
        ["BEGIN", "CREATE TABLE u (b INT)", "ROLLBACK"] = some e₁ ∧
      run (sessionStep Host.ascii Frontend.closed 0) e₁ ["CREATE TABLE t (a INT)"] = some e ∧
      run (sessionStep Host.ascii Frontend.closed 0) e₁ ["VACUUM", "CREATE TABLE t (a INT)"] =
        some e' ∧
      e.wal = some log ∧ e'.wal = some log' ∧
      ∀ m tick', (withDataDir Host.ascii Frontend.closed m tick' log').map (·.catalog) =
        (withDataDir Host.ascii Frontend.closed m tick' log).map (·.catalog) := by
  obtain ⟨hroute, hruns⟩ := rolledBack_vacuum_run
  obtain ⟨e₁, hpre, hruns⟩ := bind_eq_some_iff.mp hruns
  obtain ⟨e, hrun, hwals⟩ := map_eq_some_iff.mp hruns
  obtain ⟨hwal₁, hwal'⟩ := Prod.mk.inj hwals
  obtain ⟨e', log, log', hrun', hlog, hlog', hrestores⟩ :=
    maintenance_restores Host.ascii Frontend.closed 0 0 [] { new with wal := some [], tick := 0 }
      rfl _ e₁ hpre "VACUUM" (.inl hroute) _ e hrun
  refine ⟨e₁, e, e', log, log', hpre, hrun, hrun', hlog, hlog', hrestores ?_⟩
  intro _ dropped hdropped
  rw [hrun', map_some, hlog'] at hwal'
  cases hwal₁.symm.trans hdropped
  cases hwal'
  unfold NothingCounts NewIds
  decide +kernel

/-- After a VACUUM the table is not restored. -/
theorem vacuumed_table_lost :
    ((run (sessionStep Host.ascii Frontend.closed 0) { new with wal := some [], tick := 0 }
        ["CREATE TABLE t (a INT)"]).bind fun e =>
      (e.wal.bind (withDataDir Host.ascii Frontend.closed 0 0)).map
        fun u => (u.catalog.get "t").isSome) = some true ∧
    ((run (sessionStep Host.ascii Frontend.closed 0) { new with wal := some [], tick := 0 }
        ["CREATE TABLE t (a INT)", "VACUUM"]).bind fun e =>
      (e.wal.bind (withDataDir Host.ascii Frontend.closed 0 0)).map
        fun u => (u.catalog.get "t").isSome) = some false := by
  decide +kernel

end QueryEngine

end TensorVault
