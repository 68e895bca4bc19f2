import TensorVault.Engine.Effect
import TensorVault.Lib.Journal

/-!
# Restoring an engine from its log

`QueryEngine::with_data_dir` starts from an empty engine and executes the statements of the log
again: those logged without a transaction, and those of transactions with a COMMIT record
anywhere in the log. A transaction is known by its id alone.

`withDataDir_catalog` says what is restored in terms of the log as a journal of table statements.
-/

namespace TensorVault

open Run List

namespace Wal

/-- The ids with a COMMIT record. -/
def committedTxns (records : List WalRecord) : List UInt64 :=
  (records.filter fun r => r.isCommit && r.txnId != 0).map (·.txnId)

/-- The ids whose statements are executed again. -/
def isLive (records : List WalRecord) (id : UInt64) : Bool :=
  id == 0 || (committedTxns records).contains id

/-- The statements of a log, with the ids they were logged under. -/
def entries (records : List WalRecord) : List (UInt64 × String) :=
  (records.filter fun r => !r.isRollback && r.sql != "").map fun r => (r.txnId, r.sql)

theorem entries_append (rs ss : List WalRecord) :
    entries (rs ++ ss) = entries rs ++ entries ss := by
  simp [entries]

variable {id : UInt64}

@[simp] theorem entries_beginTxn : entries [.beginTxn id] = [] := rfl

@[simp] theorem entries_commit : entries [.commit id] = [] := rfl

@[simp] theorem entries_rollback : entries [.rollback id] = [] := rfl

theorem entries_txnDml {sql : String} (h : sql ≠ "") : entries [.txnDml id sql] = [(id, sql)] := by
  simp [entries, WalRecord.txnDml, h]

theorem committedTxns_append {rs ss : List WalRecord} :
    committedTxns (rs ++ ss) = committedTxns rs ++ committedTxns ss := by
  simp [committedTxns]

end Wal

namespace QueryEngine

variable {H : Host} {F : Frontend} {log : List WalRecord} {sql : String} {s : TableStatement}

open Wal

/-- A record of the log, in a log with the given live ids. A physical change only concerns the
buffer pool. -/
def replayRecord (H : Host) (F : Frontend) (n : Nat) (live : UInt64 → Bool) (e : QueryEngine)
    (r : WalRecord) : Option QueryEngine :=
  if r.isRollback then some e
  else if !live r.txnId then some e
  else if r.sql = "" then some e
  else
    match executeInner H F n { e with wal := none } r.sql (some r.txnId) with
    | some (e', _) => some { e' with wal := e.wal }
    | none => none

/-- `QueryEngine::replay_wal`. -/
def replayWal (H : Host) (F : Frontend) (n : Nat) (e : QueryEngine) (records : List WalRecord) :
    Option QueryEngine := run (replayRecord H F n (isLive records)) e records

/-- `QueryEngine::with_data_dir` on a directory with the given log. -/
def withDataDir (H : Host) (F : Frontend) (n tick : Nat) (log : List WalRecord) :
    Option QueryEngine := replayWal H F n { new with wal := some log, tick } log

/-- What replay does not touch. -/
structure Replayed (e e' : QueryEngine) : Prop where
  txnManager : e'.txnManager = e.txnManager
  savepoints : e'.savepoints = e.savepoints
  wal : e'.wal = e.wal

variable {e : QueryEngine} {r : WalRecord} {cat : Catalog} {n tick : Nat} {live : UInt64 → Bool}
  {id : UInt64}

theorem Replayed.refl : Replayed e e := ⟨rfl, rfl, rfl⟩

theorem Replayed.trans {e' e'' : QueryEngine} (h : Replayed e e') (h' : Replayed e' e'') :
    Replayed e e'' :=
  ⟨h'.txnManager.trans h.txnManager, h'.savepoints.trans h.savepoints, h'.wal.trans h.wal⟩

/-- All statements of a log are table statements. -/
def Plain (H : Host) (F : Frontend) (log : List WalRecord) : Prop :=
  ∀ p ∈ entries log, (tableStatement H F p.2).isSome = true

theorem plain_append {rs ss : List WalRecord} :
    Plain H F (rs ++ ss) ↔ Plain H F rs ∧ Plain H F ss := by
  unfold Plain
  rw [entries_append]
  exact forall_mem_append

/-- The entries of a single record. -/
theorem entries_singleton :
    entries [r] = if r.isRollback = false ∧ r.sql ≠ "" then [(r.txnId, r.sql)] else [] := by
  by_cases hroll : r.isRollback = true
  · simp [entries, hroll]
  · by_cases hsql : r.sql = ""
    · simp [entries, hsql]
    · simp [entries, hroll, hsql]

/-- What a record does to the catalog, and to nothing else the log is about. -/
theorem replayRecord_spec (hplain : Plain H F [r]) {n : Nat} {live : UInt64 → Bool} :
    (replayRecord H F n live e r).map (·.catalog) =
        Journal.replay (textEffect H F) live e.catalog (entries [r]) ∧
      ∀ e', replayRecord H F n live e r = some e' → Replayed e e' := by
  have hstay : replayRecord H F n live e r = some e →
      ∀ e', replayRecord H F n live e r = some e' → Replayed e e' := by
    intro h e' he'
    cases h.symm.trans he'
    exact .refl
  rw [Plain, entries_singleton] at hplain
  rw [entries_singleton]
  by_cases hentry : r.isRollback = false ∧ r.sql ≠ ""
  · obtain ⟨hroll, hsql⟩ := hentry
    rw [if_pos ⟨hroll, hsql⟩] at hplain ⊢
    rw [Journal.replay_singleton]
    by_cases hlive : live r.txnId = true
    · -- The statement is executed, without a log.
      rw [if_pos hlive]
      obtain ⟨s, hs⟩ := Option.isSome_iff_exists.mp (hplain _ (mem_singleton.mpr rfl))
      have hspec := executeInner_table hs n { e with wal := none } (some r.txnId)
      rw [textEffect_of hs]
      unfold replayRecord
      rw [hroll, hlive]
      simp only [Bool.false_eq_true, if_false, Bool.not_true, hsql]
      cases hreply : executeInner H F n { e with wal := none } r.sql (some r.txnId) with
      | none =>
        rw [hreply] at hspec
        exact ⟨hspec.symm, fun e' he' => by cases he'⟩
      | some p =>
        rw [hreply] at hspec
        refine ⟨hspec.catalog.symm, fun e' he' => ?_⟩
        cases he'
        exact ⟨hspec.txnManager, hspec.savepoints, rfl⟩
    · have hsame : replayRecord H F n live e r = some e := by simp [replayRecord, hroll, hlive]
      rw [if_neg hlive]
      exact ⟨by rw [hsame]; rfl, hstay hsame⟩
  · have hsame : replayRecord H F n live e r = some e := by
      unfold replayRecord
      split
      · rfl
      · next hroll =>
        have hsql : r.sql = "" := by
          by_contra hne
          exact hentry ⟨by simpa using hroll, hne⟩
        simp [hsql]
    rw [if_neg hentry]
    exact ⟨by rw [hsame]; rfl, hstay hsame⟩

theorem run_replayRecord {records : List WalRecord} (hplain : Plain H F records) (n : Nat)
    (live : UInt64 → Bool) (e : QueryEngine) :
    (run (replayRecord H F n live) e records).map (·.catalog) =
        Journal.replay (textEffect H F) live e.catalog (entries records) ∧
      ∀ e', run (replayRecord H F n live) e records = some e' → Replayed e e' := by
  induction records generalizing e with
  | nil =>
    refine ⟨rfl, fun e' he' => ?_⟩
    cases he'
    exact .refl
  | cons r records ih =>
    obtain ⟨hfirst, hrest⟩ : Plain H F [r] ∧ Plain H F records := plain_append.mp hplain
    obtain ⟨hcat, hsame⟩ := replayRecord_spec hfirst
    have hentries : entries (r :: records) = entries [r] ++ entries records :=
      entries_append [r] records
    rw [hentries, Journal.replay_append, ← hcat, run]
    cases hr : replayRecord H F n live e r with
    | none => exact ⟨rfl, fun e' he' => by cases he'⟩
    | some u =>
      obtain ⟨hcat', hsame'⟩ := ih hrest u
      exact ⟨hcat', fun e' he' => (hsame u hr).trans (hsame' e' he')⟩

/-- **Restoring.** If the statements of a log that count are table statements that can be carried
out from the empty engine, `with_data_dir` succeeds with the catalog they lead to. -/
theorem withDataDir_catalog (hplain : Plain H F log)
    (hreplay : Journal.replay (textEffect H F) (isLive log) new.catalog (entries log) = some cat) :
    ∃ e, withDataDir H F n tick log = some e ∧ e.catalog = cat ∧
      e.txnManager = new.txnManager ∧ e.savepoints = [] ∧ e.wal = some log := by
  obtain ⟨hcat, hsame⟩ :=
    run_replayRecord hplain n (isLive log) { new with wal := some log, tick }
  obtain ⟨e, hrun, hcat⟩ := Option.map_eq_some_iff.mp (hcat.trans hreplay)
  have hframe := hsame e hrun
  exact ⟨e, hrun, hcat, hframe.txnManager, hframe.savepoints, hframe.wal⟩

/-- Conversely, what `with_data_dir` restores is what the log leads to. -/
theorem replay_of_withDataDir (hplain : Plain H F log) (h : withDataDir H F n tick log = some e) :
    Journal.replay (textEffect H F) (isLive log) new.catalog (entries log) = some e.catalog ∧
      e.txnManager = new.txnManager ∧ e.wal = some log := by
  obtain ⟨hcat, hsame⟩ :=
    run_replayRecord hplain n (isLive log) { new with wal := some log, tick }
  have hrun : run (replayRecord H F n (isLive log)) { new with wal := some log, tick } log =
      some e := h
  rw [hrun] at hcat
  exact ⟨hcat.symm, (hsame e hrun).txnManager, (hsame e hrun).wal⟩

/-! ## Logs that grow -/

theorem Plain.append_statement (h : Plain H F log) (hs : tableStatement H F sql = some s)
    {id : UInt64} : Plain H F (log ++ [.txnDml id sql]) := by
  refine plain_append.mpr ⟨h, fun p hp => ?_⟩
  rw [entries_txnDml (ne_empty_of_tableStatement hs)] at hp
  rw [mem_singleton.mp hp, hs]
  rfl

theorem tableStatement_of_command (h : command H F sql = some (.table s)) :
    tableStatement H F sql = some s := by
  unfold command at h
  split at h
  · cases h
  · cases h
  · cases h
  · obtain ⟨s', hs', heq⟩ := Option.map_eq_some_iff.mp h
    cases heq
    exact hs'
  · cases h

/-- A statement logged under an id that counts. -/
theorem replay_statement_live
    (h : Journal.replay (textEffect H F) live new.catalog (entries log) = some cat)
    (hs : tableStatement H F sql = some s) (hid : live id = true) :
    Journal.replay (textEffect H F) live new.catalog (entries (log ++ [.txnDml id sql])) =
      s.effect H cat := by
  rw [entries_append, entries_txnDml (ne_empty_of_tableStatement hs),
    Journal.replay_concat_live h hid, textEffect_of hs]

theorem replay_statement_dead (hs : tableStatement H F sql = some s) (hid : live id = false) :
    Journal.replay (textEffect H F) live new.catalog (entries (log ++ [.txnDml id sql])) =
      Journal.replay (textEffect H F) live new.catalog (entries log) := by
  rw [entries_append, entries_txnDml (ne_empty_of_tableStatement hs),
    Journal.replay_concat_dead hid]

end QueryEngine

end TensorVault
