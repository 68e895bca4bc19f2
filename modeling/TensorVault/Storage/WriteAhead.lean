import TensorVault.Storage.Completeness

/-!
# Acknowledged statements in the log

`wal_append_txn` throws the result of `Wal::append` away, so a statement is acknowledged whether or
not its record reached the file. Nothing in the engine reads the log, so the records that did not
land are taken out afterwards (`written`). `owes` are the records of the statements that were
acknowledged, which `acknowledged_logged` finds in the log.
-/

namespace TensorVault

open Text Sql Run List Option

namespace QueryEngine

open Wal

/-! ## Appends that fail -/

/-- The file after a statement that took it from `old` to `full`, if append `i` of the statement
landed exactly when `lands i`. -/
def written (lands : Nat → Bool) (old full : List WalRecord) : List WalRecord :=
  let kept := if old <+: full then old.length else 0
  full.take kept ++ (((full.drop kept).zipIdx).filter fun p => lands p.2).map Prod.fst

/-- `execute` with a log whose appends may fail. -/
def faultyExecute (H : Host) (F : Frontend) (n : Nat) (lands : Nat → Bool) (e : QueryEngine)
    (sql : String) : Reply :=
  (execute H F n e sql).map fun p =>
    ({ p.1 with wal := e.wal.bind fun old => p.1.wal.map (written lands old) }, p.2)

/-! ## What is acknowledged -/

/-- The records of a statement that returned the given result. -/
def owes (H : Host) (F : Frontend) (e : QueryEngine) (sql : String) :
    Except Error QueryResult → List WalRecord
  | .error _ => []
  | .ok _ =>
    match command H F sql with
    | none => []
    | some .beginTxn => [.beginTxn e.txnManager.nextId]
    | some .commit => (e.txnManager.active.map fun txn => WalRecord.commit txn.id).toList
    | some .rollback => (e.txnManager.active.map fun txn => WalRecord.rollback txn.id).toList
    | some (.table _) => [statementRecord sql (e.txnManager.active.map (·.id))]

/-- An engine and the records it owes its file. -/
structure Acked where
  engine : QueryEngine
  owed : List WalRecord

/-- A statement with the appends that land. -/
def ackedStep (H : Host) (F : Frontend) (n : Nat) (s : Acked) (a : String × (Nat → Bool)) :
    Option Acked :=
  (faultyExecute H F n a.2 s.engine a.1).map fun p =>
    { engine := p.1, owed := s.owed ++ owes H F s.engine a.1 p.2 }

/-! ## When the file has them -/

/-- No append of the statement fails, and the log covers it. -/
@[irreducible] def Durable (H : Host) (F : Frontend) (n : Nat) (s : Acked)
    (a : String × (Nat → Bool)) : Prop :=
  (∀ i, a.2 i = true) ∧ Covered H F n s.engine a.1

variable {lands : Nat → Bool} {n : Nat} {F : Frontend} {sql : String}

theorem written_of_lands (h : ∀ i, lands i = true)
    (old full : List WalRecord) : written lands old full = full := by
  have hall : (fun p : WalRecord × Nat => lands p.2) = fun _ => true := funext fun p => h p.2
  simp only [written, hall, filter_true, zipIdx_map_fst, take_append_drop]

theorem faultyExecute_of_lands {H : Host}
    {e : QueryEngine} {log : List WalRecord} (h : ∀ i, lands i = true)
    (hwal : e.wal = some log) : faultyExecute H F n lands e sql = execute H F n e sql := by
  have hkeep : ∀ p : QueryEngine × Except Error QueryResult,
      ({ p.1 with wal := e.wal.bind fun old => p.1.wal.map (written lands old) }, p.2) = p := by
    rintro ⟨u, r⟩
    have hid : (fun full => written lands log full) = id := funext (written_of_lands h log)
    simp only [hwal, bind_some, hid, Option.map_id, id_eq]
  rw [faultyExecute, funext hkeep]
  exact map_id_apply

section Step

variable {H : Host} {F : Frontend} {n : Nat} {e e' : QueryEngine} {sql : String}
  {r : Except Error QueryResult}

/-- The records a command appends. -/
theorem execute_wal {c : Command} (hc : command H F sql = some c)
    (h : execute H F n e sql = some (e', r)) : e'.wal = e.wal.map (· ++ owes H F e sql r) := by
  have hspec := execute_spec hc n e
  rw [h] at hspec
  cases r with
  | ok qr =>
    rw [hspec.ok qr rfl]
    simp only [owes, hc]
    cases c <;> rfl
  | error err =>
    rw [hspec.error err rfl]
    cases e.wal <;> simp [owes]

theorem owes_of_not_command (hc : command H F sql = none) : owes H F e sql r = [] := by
  cases r with
  | error err => rfl
  | ok qr => simp only [owes, hc]

/-- The file is up to date, and every record that is owed is in it, in order. -/
structure Acked.Kept (H : Host) (F : Frontend) (log₀ : List WalRecord) (s : Acked)
    (file : List WalRecord) : Prop where
  logged : Logged H F s.engine file
  owed : (log₀ ++ s.owed).Sublist file

/-- One statement whose appends all land. -/
theorem Acked.Kept.step {log₀ file : List WalRecord} {s s' : Acked} {a : String × (Nat → Bool)}
    (h : s.Kept H F log₀ file) (ha : Durable H F n s a) (hstep : ackedStep H F n s a = some s') :
    ∃ file', s'.Kept H F log₀ file' := by
  unfold Durable at ha
  obtain ⟨hlands, hcovered⟩ := ha
  rw [ackedStep, faultyExecute_of_lands hlands h.logged.wal] at hstep
  obtain ⟨⟨u, r⟩, hreply, rfl⟩ := map_eq_some_iff.mp hstep
  obtain ⟨added, hadded⟩ := h.logged.execute hcovered hreply
  refine ⟨file ++ added, hadded, ?_⟩
  rw [← append_assoc]
  refine h.owed.append ?_
  cases hc : command H F a.1 with
  | none =>
    rw [owes_of_not_command hc]
    exact nil_sublist _
  | some c =>
    have hwal := execute_wal hc hreply
    rw [hadded.wal, h.logged.wal, map_some, some_inj, append_cancel_left_eq] at hwal
    rw [hwal]

end Step

/-- **Write-ahead.** On an engine restored from its data directory, as long as no append fails and
the log covers the statements, the file holds the records of everything that was acknowledged, and
a restart reproduces it. -/
theorem acknowledged_logged (H : Host) (F : Frontend) (n tick : Nat) (log₀ : List WalRecord)
    (hplain : Plain H F log₀) (e₀ : QueryEngine) (hopen : withDataDir H F n tick log₀ = some e₀)
    (stmts : List (String × (Nat → Bool)))
    (hdurable : Along (ackedStep H F n) (Durable H F n) ⟨e₀, []⟩ stmts)
    (pre : List (String × (Nat → Bool))) (hpre : pre <+: stmts) (s : Acked)
    (hrun : run (ackedStep H F n) ⟨e₀, []⟩ pre = some s) :
    ∃ file, s.engine.wal = some file ∧ (log₀ ++ s.owed).Sublist file ∧
      ∀ m tick', ∃ u, withDataDir H F m tick' file = some u ∧ u.catalog = s.engine.catalog := by
  have hstart : (⟨e₀, []⟩ : Acked).Kept H F log₀ log₀ :=
    ⟨Logged.start hplain hopen, by rw [append_nil]⟩
  have hstep : ∀ (s : Acked) (a : String × (Nat → Bool)) (s' : Acked),
      (∃ file, s.Kept H F log₀ file) → Durable H F n s a → ackedStep H F n s a = some s' →
        ∃ file, s'.Kept H F log₀ file := by
    rintro s a s' ⟨file, h⟩ ha hs
    exact h.step ha hs
  obtain ⟨file, h⟩ := invariant_of_along hstep ⟨log₀, hstart⟩ hdurable pre hpre s hrun
  exact ⟨file, h.logged.wal, h.owed, fun m tick' => h.logged.withDataDir⟩

/-! ## A session in a transaction -/

def transactionTexts : List String :=
  ["BEGIN", "CREATE TABLE t (a INT)", "INSERT INTO t VALUES (1)", "COMMIT"]

/-- Every append of every statement lands. -/
def landing (texts : List String) : List (String × (Nat → Bool)) :=
  texts.map fun sql => (sql, fun _ => true)

theorem durable_of_covered {H : Host} {s : Acked}
    (h : Covered H F n s.engine sql) : Durable H F n s (sql, fun _ => true) := by
  unfold Durable
  exact ⟨fun _ => rfl, h⟩

theorem transactionTexts_durable : Along (ackedStep Host.ascii Frontend.closed n)
    (Durable Host.ascii Frontend.closed n) ⟨{ new with wal := some [], tick := 0 }, []⟩
    (landing transactionTexts) := by
  have hroutes : ∀ sql ∈ transactionTexts.tail, outerRoute Host.ascii sql = .commit ∨
      outerRoute Host.ascii sql = .inner ∧
        (tableStatement Host.ascii Frontend.closed sql).isSome = true := by decide +kernel
  refine ⟨durable_of_covered begin_covered, fun u _ => along_of_forall (fun a ha v => ?_) u⟩
  obtain ⟨sql, hsql, rfl⟩ := mem_map.mp ha
  refine durable_of_covered (covered_of_route ?_ n _)
  rcases hroutes sql hsql with h | ⟨h, htable⟩
  · exact .inl h
  · exact .inr ⟨h, .inl htable⟩

theorem transactionTexts_run : (run (ackedStep Host.ascii Frontend.closed 0)
    ⟨{ new with wal := some [], tick := 0 }, []⟩ (landing transactionTexts)).map (·.owed) =
      some [.beginTxn 1, statementRecord "CREATE TABLE t (a INT)" (some 1),
        statementRecord "INSERT INTO t VALUES (1)" (some 1), .commit 1] := by
  decide +kernel

/-- The file has the whole transaction once COMMIT is acknowledged. -/
theorem transaction_acknowledged :
    ∃ s, run (ackedStep Host.ascii Frontend.closed 0) ⟨{ new with wal := some [], tick := 0 }, []⟩
        (landing transactionTexts) = some s ∧
      ∃ file, s.engine.wal = some file ∧ ([] ++ s.owed).Sublist file ∧ ∀ m tick', ∃ u,
        withDataDir Host.ascii Frontend.closed m tick' file = some u ∧
          u.catalog = s.engine.catalog := by
  obtain ⟨s, hrun, -⟩ := map_eq_some_iff.mp transactionTexts_run
  have hplain : Plain Host.ascii Frontend.closed [] := fun p hp => by cases hp
  exact ⟨s, hrun, acknowledged_logged Host.ascii Frontend.closed 0 0 [] hplain
    { new with wal := some [], tick := 0 } rfl (landing transactionTexts) transactionTexts_durable
    (landing transactionTexts) (prefix_refl _) s hrun⟩

/-- An INSERT is acknowledged although its append failed, and a restart loses the row. -/
theorem acknowledged_row_lost :
    ((run (ackedStep Host.ascii Frontend.closed 0) ⟨{ new with wal := some [], tick := 0 }, []⟩
        [("CREATE TABLE t (a INT)", fun _ => true),
          ("INSERT INTO t VALUES (1)", fun _ => false)]).map fun s =>
      (s.owed.length, s.engine.wal.map List.length, (s.engine.catalog.get "t").map (·.rowCount),
        (s.engine.wal.bind (withDataDir Host.ascii Frontend.closed 0 0)).bind
          fun u => (u.catalog.get "t").map (·.rowCount))) =
      some (2, some 1, some 1, some 0) := by
  decide +kernel

end QueryEngine

end TensorVault
