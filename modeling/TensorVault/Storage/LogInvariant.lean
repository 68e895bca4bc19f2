import TensorVault.Storage.Replay

/-!
# The log and the live engine

`Logged` says that the log of a running engine is up to date: replaying what is committed leads
to the main catalog, and replaying the open transaction too leads to its snapshot. `Logged.step`
carries it over a command; the only command it asks something of is BEGIN, whose id has to be new.
-/

namespace TensorVault

open Run List

namespace QueryEngine

variable {log : List WalRecord} {r : WalRecord}

open Wal

/-- The ids that would count if `id` were committed. -/
def liveWith (log : List WalRecord) (id i : UInt64) : Bool := isLive log i || i == id

/-- The open transaction in the log. -/
structure OpenTxn (H : Host) (F : Frontend) (log : List WalRecord) (txn : Transaction) : Prop where
  id_ne_zero : txn.id ≠ 0
  uncommitted : txn.id ∉ committedTxns log
  replay : Journal.replay (textEffect H F) (liveWith log txn.id) new.catalog (entries log) =
    some txn.snapshot

/-- The log is up to date. -/
structure Logged (H : Host) (F : Frontend) (e : QueryEngine) (log : List WalRecord) : Prop where
  wal : e.wal = some log
  plain : Plain H F log
  main : Journal.replay (textEffect H F) (isLive log) new.catalog (entries log) = some e.catalog
  txn : ∀ txn, e.txnManager.active = some txn → OpenTxn H F log txn

/-- The log has been added to, and is up to date. -/
def LoggedAfter (H : Host) (F : Frontend) (e : QueryEngine) (log : List WalRecord) : Prop :=
  ∃ added, Logged H F e (log ++ added)

variable {H : Host} {F : Frontend} {e : QueryEngine} {id : UInt64}

theorem Logged.kept (h : Logged H F e log) : LoggedAfter H F e log :=
  ⟨[], by rwa [append_nil]⟩

theorem LoggedAfter.of_append {added : List WalRecord}
    (h : LoggedAfter H F e (log ++ added)) : LoggedAfter H F e log := by
  obtain ⟨more, h⟩ := h
  exact ⟨added ++ more, by rwa [← append_assoc]⟩

/-- The id of the next transaction is new to the log. -/
def FreshId (e : QueryEngine) (log : List WalRecord) : Prop :=
  e.txnManager.nextId ≠ 0 ∧ ∀ r ∈ log, r.txnId ≠ e.txnManager.nextId

/-! ## Records and the ids that count -/

theorem isLive_zero : isLive log 0 = true := rfl

theorem isLive_eq_false (h0 : id ≠ 0) (h : id ∉ committedTxns log) : isLive log id = false := by
  simp [isLive, h0, h]

theorem committedTxns_append_of_not_commit (h : r.isCommit = false) :
    committedTxns (log ++ [r]) = committedTxns log := by
  have hnone : committedTxns [r] = [] := by simp [committedTxns, h]
  rw [committedTxns_append, hnone, append_nil]

theorem isLive_append_of_not_commit (h : r.isCommit = false) :
    isLive (log ++ [r]) = isLive log := by
  funext id
  rw [isLive, isLive, committedTxns_append_of_not_commit h]

theorem committedTxns_append_commit (h : id ≠ 0) :
    committedTxns (log ++ [.commit id]) = committedTxns log ++ [id] := by
  rw [committedTxns_append]
  simp [committedTxns, WalRecord.commit, h]

/-- A COMMIT makes the statements of the transaction count. -/
theorem isLive_append_commit (h : id ≠ 0) : isLive (log ++ [.commit id]) = liveWith log id := by
  funext i
  rw [isLive, liveWith, isLive, committedTxns_append_commit h]
  simp [Bool.or_assoc, Bool.beq_eq_decide_eq]

theorem liveWith_append_of_not_commit (h : r.isCommit = false) :
    liveWith (log ++ [r]) id = liveWith log id := by
  funext i
  rw [liveWith, liveWith, isLive_append_of_not_commit h]

theorem mem_of_mem_entries {p : UInt64 × String} (h : p ∈ entries log) :
    ∃ r ∈ log, r.txnId = p.1 := by
  obtain ⟨r, hr, rfl⟩ := mem_map.mp h
  exact ⟨r, (mem_filter.mp hr).1, rfl⟩

/-- A property of records that holds for a log and one more record. -/
theorem forall_mem_concat {p : WalRecord → Prop} (hlog : ∀ s ∈ log, p s) (hr : p r) :
    ∀ s ∈ log ++ [r], p s :=
  forall_mem_append.mpr ⟨hlog, forall_mem_singleton.mpr hr⟩

/-! ## One command -/

section

variable {txn : Transaction}

variable {H : Host} {F : Frontend} {e e' : QueryEngine} {log : List WalRecord} {sql : String}
  {s : TableStatement}

/-- What the log is about has not changed. -/
theorem Logged.of_eq (h : Logged H F e log) (hcat : e'.catalog = e.catalog)
    (htxn : e'.txnManager = e.txnManager) (hwal : e'.wal = e.wal) : Logged H F e' log where
  wal := hwal.trans h.wal
  plain := h.plain
  main := h.main.trans (congrArg some hcat.symm)
  txn := by rw [htxn]; exact h.txn

theorem Logged.began (h : Logged H F e log) (hfresh : FreshId e log) (hcat : e'.catalog = e.catalog)
    (htxn : e'.txnManager.active = some ⟨e.txnManager.nextId, e.catalog⟩)
    (hwal : e'.wal = e.wal.map (· ++ [.beginTxn e.txnManager.nextId])) :
    Logged H F e' (log ++ [.beginTxn e.txnManager.nextId]) where
  wal := by rw [hwal, h.wal]; rfl
  plain := plain_append.mpr ⟨h.plain, fun p hp => by cases hp⟩
  main := by
    rw [isLive_append_of_not_commit rfl, entries_append, entries_beginTxn, append_nil, hcat]
    exact h.main
  txn := by
    intro txn hactive
    cases htxn.symm.trans hactive
    refine ⟨hfresh.1, ?_, ?_⟩
    · rw [committedTxns_append_of_not_commit rfl]
      intro hmem
      obtain ⟨r, hr, heq⟩ := mem_map.mp hmem
      exact hfresh.2 r (mem_filter.mp hr).1 heq
    · rw [liveWith_append_of_not_commit rfl, entries_append, entries_beginTxn, append_nil, ← h.main]
      -- No statement has the new id yet.
      refine Journal.replay_congr (fun p hp => ?_)
      obtain ⟨r, hr, heq⟩ := mem_of_mem_entries hp
      have hne : p.1 ≠ e.txnManager.nextId := fun hp' => hfresh.2 r hr (heq.trans hp')
      simp [liveWith, hne]

theorem Logged.committed (h : Logged H F e log) (hactive : e.txnManager.active = some txn)
    (hcat : e'.catalog = txn.snapshot) (htxn : e'.txnManager.active = none)
    (hwal : e'.wal = e.wal.map (· ++ [.commit txn.id])) :
    Logged H F e' (log ++ [.commit txn.id]) := by
  have hopen := h.txn txn hactive
  exact
    { wal := by rw [hwal, h.wal]; rfl
      plain := plain_append.mpr ⟨h.plain, fun p hp => by cases hp⟩
      main := by
        rw [isLive_append_commit hopen.id_ne_zero, entries_append, entries_commit, append_nil, hcat]
        exact hopen.replay
      txn := fun u hu => by rw [htxn] at hu; cases hu }

theorem Logged.rolledBack (h : Logged H F e log) (hcat : e'.catalog = e.catalog)
    (htxn : e'.txnManager.active = none) (hwal : e'.wal = e.wal.map (· ++ [.rollback txn.id])) :
    Logged H F e' (log ++ [.rollback txn.id]) where
  wal := by rw [hwal, h.wal]; rfl
  plain := plain_append.mpr ⟨h.plain, fun p hp => by cases hp⟩
  main := by
    rw [isLive_append_of_not_commit rfl, entries_append, entries_rollback, append_nil, hcat]
    exact h.main
  txn := fun u hu => by rw [htxn] at hu; cases hu

theorem Logged.autocommitted (h : Logged H F e log) (hs : tableStatement H F sql = some s)
    (hidle : e.txnManager.active = none) (heffect : s.effect H e.catalog = some e'.catalog)
    (htxn : e'.txnManager = e.txnManager) (hwal : e'.wal = e.wal.map (· ++ [.autocommit sql])) :
    Logged H F e' (log ++ [.autocommit sql]) where
  wal := by rw [hwal, h.wal]; rfl
  plain := h.plain.append_statement hs
  main := by
    rw [isLive_append_of_not_commit rfl]
    exact (replay_statement_live h.main hs rfl).trans heffect
  txn := fun u hu => by rw [htxn, hidle] at hu; cases hu

theorem Logged.inTxn (h : Logged H F e log)
    (hs : tableStatement H F sql = some s) {snapshot : Catalog}
    (hactive : e.txnManager.active = some txn) (heffect : s.effect H txn.snapshot = some snapshot)
    (hcat : e'.catalog = e.catalog) (htxn : e'.txnManager.active = some ⟨txn.id, snapshot⟩)
    (hwal : e'.wal = e.wal.map (· ++ [.txnDml txn.id sql])) :
    Logged H F e' (log ++ [.txnDml txn.id sql]) := by
  have hopen := h.txn txn hactive
  exact
    { wal := by rw [hwal, h.wal]; rfl
      plain := h.plain.append_statement hs
      main := by
        rw [isLive_append_of_not_commit rfl,
          replay_statement_dead hs (isLive_eq_false hopen.id_ne_zero hopen.uncommitted), hcat]
        exact h.main
      txn := by
        intro u hu
        cases htxn.symm.trans hu
        refine ⟨hopen.id_ne_zero, ?_, ?_⟩
        · rw [committedTxns_append_of_not_commit rfl]
          exact hopen.uncommitted
        · rw [liveWith_append_of_not_commit rfl]
          have hown : liveWith log txn.id txn.id = true := by simp [liveWith]
          exact (replay_statement_live hopen.replay hs hown).trans heffect }

/-- **The log stays up to date** over a command, if a BEGIN that is accepted takes a new id. -/
theorem Logged.step (h : Logged H F e log) {c : Command}
    (hc : command H F sql = some c) (hstep : CommandStep H sql e e' c)
    (hfresh : c = .beginTxn → e.txnManager.active = none → FreshId e log) :
    LoggedAfter H F e' log := by
  cases hstep with
  | began hidle hcat htxn hwal =>
    exact ⟨_, h.began (hfresh rfl hidle) hcat (by rw [htxn]) hwal⟩
  | beginRefused _ hsame => exact hsame ▸ h.kept
  | committed txn hactive hcat htxn hwal =>
    exact ⟨_, h.committed hactive hcat (by rw [htxn]) hwal⟩
  | commitRefused _ hsame => exact hsame ▸ h.kept
  | rolledBack txn hactive hcat htxn hwal =>
    exact ⟨_, h.rolledBack hcat (by rw [htxn]) hwal⟩
  | rollbackRefused _ hsame | failed _ hsame => exact hsame ▸ h.kept
  | autocommitted s hidle heffect htxn hwal =>
    exact ⟨_, h.autocommitted (tableStatement_of_command hc) hidle heffect htxn hwal⟩
  | inTxn s txn snapshot hactive heffect hcat htxn hwal =>
    exact ⟨_, h.inTxn (tableStatement_of_command hc) hactive heffect hcat (by rw [htxn]) hwal⟩

/-- What `with_data_dir` restores from an up-to-date log is the main catalog. -/
theorem Logged.withDataDir (h : Logged H F e log) {n tick : Nat} :
    ∃ u, withDataDir H F n tick log = some u ∧ u.catalog = e.catalog := by
  obtain ⟨u, hopen, hcat, -⟩ := withDataDir_catalog h.plain h.main
  exact ⟨u, hopen, hcat⟩

end

/-- An engine that was just restored from its log. -/
theorem Logged.start {n tick : Nat}
    (hplain : Plain H F log) (h : QueryEngine.withDataDir H F n tick log = some e) :
    Logged H F e log := by
  obtain ⟨hmain, htxn, hwal⟩ := replay_of_withDataDir hplain h
  exact ⟨hwal, hplain, hmain, fun txn hactive => by rw [htxn] at hactive; cases hactive⟩

end QueryEngine

end TensorVault
