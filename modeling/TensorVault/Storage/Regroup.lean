import TensorVault.Storage.LogInvariant
import TensorVault.Engine.Locality

/-!
# Restoring transaction by transaction

`recovery::replay_wal` executes the statements logged outside transactions first, and then the
committed transactions one after the other, in the order in which a hash map happens to be iterated.
What is restored is the live catalog if a statement of a committed transaction commutes with every
later one from outside it (`Reorderable`, `recovery_restores`).
-/

namespace TensorVault

open Run Text List

namespace Recovery

/-- Records that are not executed. -/
def skipped (r : WalRecord) : Bool := r.isCommit || r.isRollback || decide (trim r.sql = "")

def recordTexts (records : List WalRecord) : List String :=
  (records.filter fun r => !skipped r).map (·.sql)

/-- The records of one transaction. -/
def replayGroup (H : Host) (F : Frontend) (n : Nat) (log : List WalRecord) (e : QueryEngine)
    (id : UInt64) : Option QueryEngine :=
  let records := log.filter fun r => r.txnId = id
  if !records.any (·.isCommit) || records.any (·.isRollback) then some e
  else run (QueryEngine.sessionStep H F n) e ("BEGIN" :: (recordTexts records ++ ["COMMIT"]))

/-- `recovery::replay_wal`, with the order in which the transactions come out of the map. -/
def replayWal (H : Host) (F : Frontend) (n : Nat) (order : List UInt64) (e : QueryEngine)
    (log : List WalRecord) : Option QueryEngine :=
  match run (QueryEngine.sessionStep H F n) e
      (recordTexts (log.filter fun r => r.txnId = 0)) with
  | some e' => run (replayGroup H F n log) e' order
  | none => none

/-- The keys of the map, in some order. -/
structure IterationOrder (log : List WalRecord) (order : List UInt64) : Prop where
  nodup : order.Nodup
  mem_iff : ∀ id, id ∈ order ↔ id ≠ 0 ∧ ∃ r ∈ log, r.txnId = id

end Recovery

namespace QueryEngine

variable {H : Host} {F : Frontend} {e : QueryEngine} {log : List WalRecord} {sql : String}
  {texts : List String}

open Wal Recovery

/-- `QueryEngine::open` on a file with the given log. -/
def openWal (H : Host) (F : Frontend) (n tick : Nat) (order : List UInt64)
    (log : List WalRecord) : Option QueryEngine :=
  (Recovery.replayWal H F n order { new with tick } log).map fun e => { e with wal := some log }

/-! ## Executing statements again -/

variable {e' : QueryEngine} {c : Command} {n : Nat} {cat : Catalog} {r : WalRecord} {id : UInt64}
  {u : QueryEngine}

/-- A table statement acts on the working catalog, and leaves transactions as they are. -/
theorem CommandStep.table_working {s : TableStatement} (h : CommandStep H sql e e' (.table s)) :
    s.effect H e.workingCatalog = some e'.workingCatalog ∧
      (e.txnManager.active = none → e'.txnManager.active = none) ∧
      ∀ txn, e.txnManager.active = some txn →
        e'.catalog = e.catalog ∧ ∃ snapshot, e'.txnManager.active = some ⟨txn.id, snapshot⟩ := by
  cases h with
  | failed _ hsame heffect =>
    subst hsame
    exact ⟨heffect, id, fun txn htxn => ⟨rfl, txn.snapshot, htxn⟩⟩
  | autocommitted _ hidle heffect htxn hwal =>
    have hidle' : e'.txnManager.active = none := by rw [htxn]; exact hidle
    rw [workingCatalog_idle hidle, workingCatalog_idle hidle']
    exact ⟨heffect, fun _ => hidle', fun txn h => by rw [hidle] at h; cases h⟩
  | inTxn _ txn snapshot hactive heffect hcat htxn hwal =>
    have hactive' : e'.txnManager.active = some ⟨txn.id, snapshot⟩ := by rw [htxn]
    rw [workingCatalog_open hactive, workingCatalog_open hactive']
    refine ⟨heffect, fun h => (by rw [hactive] at h; cases h), fun u hu => ?_⟩
    cases hactive.symm.trans hu
    exact ⟨hcat, snapshot, hactive'⟩

/-- A command goes through unless its statement ends the process. -/
theorem sessionStep_of_effect (hc : command H F sql = some c)
    (heffect : ∀ s, c = .table s → s.effect H e.workingCatalog ≠ none) :
    ∃ e', sessionStep H F n e sql = some e' := by
  have hspec := execute_spec hc n e
  rw [sessionStep]
  cases hreply : execute H F n e sql with
  | some p => exact ⟨p.1, rfl⟩
  | none =>
    rw [hreply] at hspec
    obtain ⟨s, hs, hnone⟩ := hspec
    exact absurd hnone (heffect s hs)

/-- Every text is a table statement at the top level. -/
def AllTables (H : Host) (F : Frontend) (texts : List String) : Prop :=
  ∀ sql ∈ texts, ∃ s, command H F sql = some (.table s)

/-- Table statements in a row. -/
theorem run_tables (h : AllTables H F texts)
    (hrun : run (textEffect H F) e.workingCatalog texts = some cat) :
    ∃ e', run (sessionStep H F n) e texts = some e' ∧ e'.workingCatalog = cat ∧
      (e.txnManager.active = none → e'.txnManager.active = none) ∧
      ∀ txn, e.txnManager.active = some txn →
        e'.catalog = e.catalog ∧ ∃ snapshot, e'.txnManager.active = some ⟨txn.id, snapshot⟩ := by
  induction texts generalizing e with
  | nil =>
    cases hrun
    exact ⟨e, rfl, rfl, id, fun txn htxn => ⟨rfl, txn.snapshot, htxn⟩⟩
  | cons sql texts ih =>
    obtain ⟨s, hs⟩ := h sql mem_cons_self
    obtain ⟨cat₁, heffect, hrest⟩ := run_cons hrun
    rw [textEffect_of (tableStatement_of_command hs)] at heffect
    obtain ⟨u, hu⟩ := sessionStep_of_effect hs (e := e) fun t ht => by
      cases ht
      rw [heffect]
      simp
    obtain ⟨hworking, hidle, hopen⟩ := (commandStep_of_sessionStep hs hu).table_working
    rw [heffect] at hworking
    rw [Option.some.inj hworking] at hrest
    obtain ⟨e', hrun', hcat, hidle', hopen'⟩ :=
      ih (forall_mem_cons.mp h).2 hrest
    refine ⟨e', by rw [run_cons_of_step hu]; exact hrun', hcat, fun h => hidle' (hidle h), ?_⟩
    intro txn htxn
    obtain ⟨hsame, snapshot, hu'⟩ := hopen txn htxn
    obtain ⟨hsame', hopened⟩ := hopen' _ hu'
    exact ⟨hsame'.trans hsame, hopened⟩

/-- One transaction executed again, between BEGIN and COMMIT. -/
theorem run_group (hbegin : command H F "BEGIN" = some .beginTxn)
    (hcommit : command H F "COMMIT" = some .commit) (h : AllTables H F texts)
    (hidle : e.txnManager.active = none) (hrun : run (textEffect H F) e.catalog texts = some cat) :
    ∃ e', run (sessionStep H F n) e ("BEGIN" :: (texts ++ ["COMMIT"])) = some e' ∧
      e'.catalog = cat ∧ e'.txnManager.active = none := by
  obtain ⟨u, hu⟩ := sessionStep_of_effect hbegin (e := e) fun s hs => by cases hs
  have hbegan : u.txnManager.active = some ⟨e.txnManager.nextId, e.catalog⟩ := by
    cases commandStep_of_sessionStep hbegin hu with
    | began _ _ htxn _ => rw [htxn]
    | beginRefused hactive _ => rw [hidle] at hactive; cases hactive
  have hrun' : run (textEffect H F) u.workingCatalog texts = some cat := by
    rw [workingCatalog_open hbegan]
    exact hrun
  obtain ⟨v, hv, hcat, -, hopen⟩ := run_tables h hrun'
  obtain ⟨-, snapshot, hactive⟩ := hopen _ hbegan
  obtain ⟨w, hw⟩ := sessionStep_of_effect hcommit (e := v) fun s hs => by cases hs
  refine ⟨w, ?_, ?_⟩
  · rw [run_cons_of_step hu, run_append, hv, Option.bind_some, run_cons_of_step hw]
    rfl
  · cases commandStep_of_sessionStep hcommit hw with
    | committed txn hactive' hcat' htxn _ =>
      rw [workingCatalog_open hactive'] at hcat
      exact ⟨hcat'.trans hcat, by rw [htxn]⟩
    | commitRefused hidle' _ => rw [hactive] at hidle'; cases hidle'

/-! ## The records of a session -/

/-- What the records of a session look like: ids below the next one, every text is that of a
table statement, and no transaction is both committed and rolled back. -/
structure Written (H : Host) (F : Frontend) (e : QueryEngine) (log : List WalRecord) : Prop where
  below : ∀ r ∈ log, r.txnId.toNat < e.txnManager.nextId.toNat
  active : ∀ txn, e.txnManager.active = some txn → txn.id.toNat < e.txnManager.nextId.toNat
  texts : ∀ r ∈ log, r.sql ≠ "" →
    r.isCommit = false ∧ r.isRollback = false ∧ ∃ s, command H F r.sql = some (.table s)
  ended : ∀ r ∈ log, r.isRollback = true →
    r.txnId ∉ committedTxns log ∧ ∀ txn, e.txnManager.active = some txn → r.txnId ≠ txn.id

theorem Written.freshId (h : Written H F e log) (hpos : 0 < e.txnManager.nextId.toNat) :
    FreshId e log := by
  constructor
  · intro h0
    rw [h0] at hpos
    exact absurd hpos (by decide)
  · intro r hr heq
    have hlt := h.below r hr
    rw [heq] at hlt
    exact absurd hlt (Nat.lt_irrefl _)

/-- One more record, that is no COMMIT. -/
theorem Written.concat (h : Written H F e log)
    (hnext : e.txnManager.nextId.toNat ≤ e'.txnManager.nextId.toNat)
    (hid : r.txnId.toNat < e'.txnManager.nextId.toNat)
    (hactive : ∀ txn, e'.txnManager.active = some txn → txn.id.toNat < e'.txnManager.nextId.toNat ∧
      ∀ s ∈ log ++ [r], s.isRollback = true → s.txnId ≠ txn.id) (htext : r.sql ≠ "" →
      r.isCommit = false ∧ r.isRollback = false ∧ ∃ s, command H F r.sql = some (.table s))
    (hcommit : ∀ s ∈ log ++ [r], s.isRollback = true → s.txnId ∉ committedTxns (log ++ [r])) :
    Written H F e' (log ++ [r]) where
  below := forall_mem_concat (fun s hs => Nat.lt_of_lt_of_le (h.below s hs) hnext) hid
  active := fun txn htxn => (hactive txn htxn).1
  texts := forall_mem_concat h.texts htext
  ended := fun s hs hroll =>
    ⟨hcommit s hs hroll, fun txn htxn => (hactive txn htxn).2 s hs hroll⟩

theorem Written.step {log' : List WalRecord} (h : Written H F e log) (hlogged : Logged H F e log)
    (hc : command H F sql = some c) (hstep : CommandStep H sql e e' c) (hwal' : e'.wal = some log')
    (hpos : 0 < e.txnManager.nextId.toNat) (hroom : e.txnManager.nextId.toNat + 1 < 2 ^ 64) :
    Written H F e' log' ∧ e.txnManager.nextId.toNat ≤ e'.txnManager.nextId.toNat ∧
      e'.txnManager.nextId.toNat ≤ e.txnManager.nextId.toNat + 1 := by
  have hlog : ∀ r, e'.wal = e.wal.map (· ++ [r]) → log' = log ++ [r] := by
    intro r hr
    rw [hr, hlogged.wal] at hwal'
    exact (Option.some.inj hwal').symm
  have hsame : e' = e → Written H F e' log' ∧
      e.txnManager.nextId.toNat ≤ e'.txnManager.nextId.toNat ∧
      e'.txnManager.nextId.toNat ≤ e.txnManager.nextId.toNat + 1 := by
    rintro rfl
    cases hlogged.wal.symm.trans hwal'
    exact ⟨h, Nat.le_refl _, Nat.le_succ _⟩
  -- Records that are neither COMMIT nor ROLLBACK leave the end of transactions alone.
  have hquiet : ∀ {r : WalRecord}, r.isCommit = false → r.isRollback = false →
      ∀ s ∈ log ++ [r], s.isRollback = true → s.txnId ∉ committedTxns (log ++ [r]) := by
    intro r hcommit hroll
    rw [committedTxns_append_of_not_commit hcommit]
    refine forall_mem_concat (fun s hs hs' => (h.ended s hs hs').1) fun hr => ?_
    cases hroll.symm.trans hr
  cases hstep with
  | began hidle hcat htxn hw =>
    rw [hlog _ hw]
    have hnext : e'.txnManager.nextId.toNat = e.txnManager.nextId.toNat + 1 := by
      rw [htxn]
      exact Nat.mod_eq_of_lt hroom
    refine ⟨h.concat (by omega) (by rw [hnext]; exact Nat.lt_succ_self _) (fun txn hactive => ?_)
      (fun hne => absurd rfl hne) (hquiet rfl rfl), by omega, by omega⟩
    rw [htxn] at hactive
    cases hactive
    refine ⟨by rw [hnext]; exact Nat.lt_succ_self _, ?_⟩
    exact forall_mem_concat (fun s hs _ => (h.freshId hpos).2 s hs) fun hr => by cases hr
  | beginRefused _ hsame' => exact hsame hsame'
  | committed txn hactive hcat htxn hw =>
    rw [hlog _ hw]
    have hnext : e'.txnManager.nextId = e.txnManager.nextId := by rw [htxn]
    refine ⟨h.concat (by rw [hnext]) (by rw [hnext]; exact h.active txn hactive) (fun u hu => ?_)
      (fun hne => absurd rfl hne) ?_, by rw [hnext], by rw [hnext]; exact Nat.le_succ _⟩
    · rw [htxn] at hu; cases hu
    · rw [committedTxns_append_commit (hlogged.txn txn hactive).id_ne_zero]
      refine forall_mem_concat (fun s hs hroll hmem => ?_) fun hr => by cases hr
      rcases mem_append.mp hmem with hmem | hmem
      · exact (h.ended s hs hroll).1 hmem
      · exact (h.ended s hs hroll).2 txn hactive (mem_singleton.mp hmem)
  | commitRefused _ hsame' => exact hsame hsame'
  | rolledBack txn hactive hcat htxn hw =>
    rw [hlog _ hw]
    have hnext : e'.txnManager.nextId = e.txnManager.nextId := by rw [htxn]
    refine ⟨h.concat (by rw [hnext]) (by rw [hnext]; exact h.active txn hactive) (fun u hu => ?_)
      (fun hne => absurd rfl hne) ?_, by rw [hnext], by rw [hnext]; exact Nat.le_succ _⟩
    · rw [htxn] at hu; cases hu
    · rw [committedTxns_append_of_not_commit rfl]
      exact forall_mem_concat (fun s hs hroll => (h.ended s hs hroll).1)
        fun _ => (hlogged.txn txn hactive).uncommitted
  | rollbackRefused _ hsame' | failed _ hsame' => exact hsame hsame'
  | autocommitted s hidle heffect htxn hw =>
    rw [hlog _ hw, htxn]
    refine ⟨h.concat (by rw [htxn]) (by rw [htxn]; exact hpos) (fun u hu => ?_)
      (fun _ => ⟨rfl, rfl, s, hc⟩) (hquiet rfl rfl), Nat.le_refl _, Nat.le_succ _⟩
    rw [htxn, hidle] at hu
    cases hu
  | inTxn s txn snapshot hactive heffect hcat htxn hw =>
    rw [hlog _ hw]
    have hnext : e'.txnManager.nextId = e.txnManager.nextId := by rw [htxn]
    refine ⟨h.concat (by rw [hnext]) (by rw [hnext]; exact h.active txn hactive) (fun u hu => ?_)
      (fun _ => ⟨rfl, rfl, s, hc⟩) (hquiet rfl rfl), by rw [hnext],
      by rw [hnext]; exact Nat.le_succ _⟩
    rw [htxn] at hu
    cases hu
    refine ⟨by rw [hnext]; exact h.active txn hactive, ?_⟩
    exact forall_mem_concat (fun s hs hroll => (h.ended s hs hroll).2 txn hactive)
      fun hr => by cases hr

/-- **The log of a session** is up to date, and its records are those of its commands. -/
theorem session_logged (hcmd : ∀ sql ∈ texts, (command H F sql).isSome = true)
    (hlogged : Logged H F e log)
    (hwritten : Written H F e log) (hpos : 0 < e.txnManager.nextId.toNat)
    (hroom : e.txnManager.nextId.toNat + texts.length < 2 ^ 64)
    (hrun : run (sessionStep H F n) e texts = some e') :
    ∃ log', Logged H F e' log' ∧ Written H F e' log' := by
  induction texts generalizing e log with
  | nil =>
    cases hrun
    exact ⟨log, hlogged, hwritten⟩
  | cons sql texts ih =>
    obtain ⟨c, hc⟩ := Option.isSome_iff_exists.mp (hcmd sql mem_cons_self)
    obtain ⟨u, hu, hrest⟩ := run_cons hrun
    rw [length_cons] at hroom
    have hstep := commandStep_of_sessionStep hc hu
    obtain ⟨added, hlogged₁⟩ := hlogged.step hc hstep fun _ _ => hwritten.freshId hpos
    obtain ⟨hwritten₁, hle, hnext⟩ :=
      hwritten.step hlogged hc hstep hlogged₁.wal hpos (by omega)
    exact ih (forall_mem_cons.mp hcmd).2 hlogged₁ hwritten₁ (by omega) (by omega) hrest

/-! ## Groups and entries -/

theorem skipped_iff (h : Written H F e log) (hr : r ∈ log) :
    (!skipped r) = (!r.isRollback && r.sql != "") := by
  by_cases hsql : r.sql = ""
  · have hblank : trim "" = "" := rfl
    simp [skipped, hsql, hblank]
  · obtain ⟨hcommit, hroll, s, hs⟩ := h.texts r hr hsql
    have hblank := trim_ne_empty_of_tableStatement (tableStatement_of_command hs)
    simp [skipped, hcommit, hroll, hsql, hblank]

/-- The texts of a transaction are its entries. -/
theorem recordTexts_group (h : Written H F e log) :
    recordTexts (log.filter fun r => r.txnId = id) = bucket id (entries log) := by
  unfold recordTexts bucket entries
  rw [filter_map, map_map, filter_filter, filter_filter]
  refine congrArg _ (filter_congr fun r hr => ?_)
  rw [skipped_iff h hr, Bool.and_comm]
  rfl

theorem allTables_bucket (h : Written H F e log) : AllTables H F (bucket id (entries log)) := by
  intro sql hsql
  obtain ⟨r, hr, heq⟩ := mem_map.mp (mem_bucket.mp hsql)
  obtain ⟨hr, hfilter⟩ := mem_filter.mp hr
  cases heq
  have hne : r.sql ≠ "" := by
    simp only [Bool.and_eq_true, bne_iff_ne] at hfilter
    exact hfilter.2
  exact (h.texts r hr hne).2.2

/-- A transaction is executed again if its statements count. -/
theorem replayGroup_of_written (hwritten : Written H F e log) (hid : id ≠ 0) (n : Nat)
    (u : QueryEngine) :
    replayGroup H F n log u id = if isLive log id then
      run (sessionStep H F n) u
        ("BEGIN" :: (bucket id (entries log) ++ ["COMMIT"])) else some u := by
  have hcommit : (log.filter fun r => r.txnId = id).any (·.isCommit) = isLive log id := by
    rw [Bool.eq_iff_iff]
    simp only [any_eq_true, mem_filter, decide_eq_true_eq, isLive, Bool.or_eq_true,
      beq_iff_eq, hid, false_or, contains_iff_mem, committedTxns, mem_map,
      Bool.and_eq_true, bne_iff_ne]
    constructor
    · rintro ⟨r, ⟨hr, rfl⟩, hc⟩
      exact ⟨r, ⟨hr, hc, hid⟩, rfl⟩
    · rintro ⟨r, ⟨hr, hc, -⟩, rfl⟩
      exact ⟨r, ⟨hr, rfl⟩, hc⟩
  unfold replayGroup
  simp only [hcommit, recordTexts_group hwritten]
  cases hlive : isLive log id with
  | false => rfl
  | true =>
    -- A committed transaction has no ROLLBACK record.
    have hroll : (log.filter fun r => r.txnId = id).any (·.isRollback) = false := by
      rw [any_eq_false]
      intro r hr hroll
      obtain ⟨hr, heq⟩ := mem_filter.mp hr
      have hnot := (hwritten.ended r hr hroll).1
      rw [of_decide_eq_true heq] at hnot
      rw [isLive_eq_false hid hnot] at hlive
      cases hlive
    rw [hroll]
    rfl

/-! ## The result -/

/-- Statements that change places commute: one of a committed transaction, with every later one
that counts and is not of the same transaction. -/
def Reorderable (H : Host) (F : Frontend) (log : List WalRecord) : Prop :=
  (entries log).Pairwise fun p q => isLive log p.1 = true → isLive log q.1 = true →
    p.1 ≠ 0 → p.1 ≠ q.1 → Commute (textEffect H F) p.2 q.2

/-- The tables of a text. -/
def textTables (H : Host) (F : Frontend) (sql : String) : List String :=
  ((tableStatement H F sql).map TableStatement.tables).getD []

theorem commute_of_textTables {sql' : String}
    (h : ∀ name ∈ textTables H F sql, name ∉ textTables H F sql') :
    Commute (textEffect H F) sql sql' := by
  intro cat
  unfold textTables at h
  unfold textEffect
  cases hs : tableStatement H F sql with
  | none => simp
  | some s =>
    cases ht : tableStatement H F sql' with
    | none => simp
    | some t =>
      rw [hs, ht] at h
      exact TableStatement.commute_of_disjoint h cat

/-- The statements of a transaction that count: all of them, or none. -/
theorem bucket_live :
    bucket id ((entries log).filter fun p => isLive log p.1) =
      if isLive log id then bucket id (entries log) else [] := by
  unfold bucket
  rw [filter_filter]
  split
  · next hlive =>
    refine congrArg _ (filter_congr fun p _ => ?_)
    by_cases hp : p.1 = id
    · simp [hp, hlive]
    · simp [hp]
  · next hdead =>
    rw [map_eq_nil_iff, filter_eq_nil_iff]
    intro p _ hp
    simp only [Bool.and_eq_true, decide_eq_true_eq] at hp
    rw [hp.1] at hp
    exact hdead hp.2

/-- Transactions executed again, one after the other. -/
theorem run_replayGroup (hwritten : Written H F e log)
    (hbegin : command H F "BEGIN" = some .beginTxn) (hcommit : command H F "COMMIT" = some .commit)
    {ids : List UInt64} (hids : ∀ id ∈ ids, id ≠ 0)
    (hidle : u.txnManager.active = none) (hrun : run (textEffect H F) u.catalog
      (ids.flatMap fun id => bucket id ((entries log).filter fun p => isLive log p.1)) =
        some cat) : ∃ v, run (replayGroup H F n log) u ids = some v ∧ v.catalog = cat := by
  induction ids generalizing u with
  | nil =>
    cases hrun
    exact ⟨u, rfl, rfl⟩
  | cons id ids ih =>
    rw [flatMap_cons, run_append] at hrun
    obtain ⟨cat₁, hgroup, hrest⟩ := Option.bind_eq_some_iff.mp hrun
    have hids' : ∀ i ∈ ids, i ≠ 0 := (forall_mem_cons.mp hids).2
    have hstep := replayGroup_of_written hwritten (hids id mem_cons_self) n u
    rw [bucket_live] at hgroup
    by_cases hlive : isLive log id = true
    · rw [if_pos hlive] at hgroup hstep
      obtain ⟨v, hv, hcat, hidle'⟩ :=
        run_group hbegin hcommit (allTables_bucket hwritten) hidle hgroup
      rw [← hcat] at hrest
      rw [run_cons_of_step (hstep.trans hv)]
      exact ih hids' hidle' hrest
    · rw [if_neg hlive] at hgroup hstep
      rw [run_cons_of_step hstep]
      refine ih hids' hidle ?_
      rw [Option.some.inj hgroup]
      exact hrest

theorem replayWal_of_logged (hlogged : Logged H F e log) (hwritten : Written H F e log)
    (hbegin : command H F "BEGIN" = some .beginTxn) (hcommit : command H F "COMMIT" = some .commit)
    (hreorder : Reorderable H F log) {order : List UInt64} (horder : IterationOrder log order)
    (hidle : u.txnManager.active = none) (hnew : u.catalog = new.catalog) :
    ∃ v, Recovery.replayWal H F n order u log = some v ∧ v.catalog = e.catalog := by
  have hcounted : (((entries log).filter fun p => isLive log p.1).Pairwise fun p q =>
      p.1 ≠ 0 → p.1 ≠ q.1 → Commute (textEffect H F) p.2 q.2) := by
    refine (hreorder.filter _).imp_of_mem fun hp hq hpq => ?_
    exact hpq (mem_filter.mp hp).2 (mem_filter.mp hq).2
  -- The statements outside transactions first, then by transaction.
  have hmain : run (textEffect H F) new.catalog
      (((entries log).filter fun p => isLive log p.1).map Prod.snd) = some e.catalog :=
    hlogged.main
  rw [run_extract (hcounted.imp fun hpq hp hq => hpq hp fun heq => hp (heq.trans hq)), bucket_live,
    if_pos isLive_zero, run_append] at hmain
  obtain ⟨cat₁, hauto, hrest⟩ := Option.bind_eq_some_iff.mp hmain
  have hrest' : (((entries log).filter fun p => isLive log p.1).filter fun p => p.1 ≠ 0).Pairwise
      fun p q => p.1 ≠ q.1 → Commute (textEffect H F) p.2 q.2 := by
    refine (hcounted.filter _).imp_of_mem fun hp _ hpq => ?_
    exact hpq (by simpa using (mem_filter.mp hp).2)
  rw [run_regroup horder.nodup ?_ hrest'] at hrest
  · have hbuckets : (order.flatMap fun id => bucket id
        (((entries log).filter fun p => isLive log p.1).filter fun p => p.1 ≠ 0)) =
        order.flatMap fun id => bucket id ((entries log).filter fun p => isLive log p.1) :=
      flatMap_congr fun id hid => bucket_filter_ne ((horder.mem_iff id).mp hid).1 _
    rw [hbuckets] at hrest
    unfold Recovery.replayWal
    rw [recordTexts_group hwritten]
    rw [← hnew, ← workingCatalog_idle hidle] at hauto
    obtain ⟨v, hv, hcat, hidle', -⟩ := run_tables (allTables_bucket hwritten) hauto
    rw [hv]
    rw [workingCatalog_idle (hidle' hidle)] at hcat
    rw [← hcat] at hrest
    exact run_replayGroup hwritten hbegin hcommit
      (fun id hid => ((horder.mem_iff id).mp hid).1) (hidle' hidle) hrest
  · intro p hp
    obtain ⟨hp, hne⟩ := mem_filter.mp hp
    obtain ⟨r, hr, heq⟩ := mem_of_mem_entries (mem_filter.mp hp).1
    exact (horder.mem_iff p.1).mpr ⟨by simpa using hne, r, hr, heq⟩

/-- The texts replay puts around a transaction. -/
theorem command_begin (hH : H.LowersAscii) :
    command H F "BEGIN" = some .beginTxn ∧ command H F "COMMIT" = some .commit := by
  have hb : H.toLowercase (trim "BEGIN") = "begin" := hH "BEGIN" (by decide)
  have hc : H.toLowercase (trim "COMMIT") = "commit" := hH "COMMIT" (by decide)
  constructor
  · unfold command outerRoute
    rw [hb]
    rfl
  · unfold command outerRoute
    rw [hc]
    rfl

/-- **Open.** For every session whose statements that change places commute, `QueryEngine::open`
on its log restores the live catalog, whatever the order of the transactions is. -/
theorem recovery_restores (H : Host) (hH : H.LowersAscii) (F : Frontend) (n tick : Nat)
    (texts : List String) (hcmd : ∀ sql ∈ texts, (command H F sql).isSome = true)
    (hroom : texts.length < 2 ^ 64 - 1) (e : QueryEngine)
    (hrun : run (sessionStep H F n) { new with wal := some [], tick } texts = some e)
    (log : List WalRecord) (hlog : e.wal = some log) (hreorder : Reorderable H F log)
    (order : List UInt64) (horder : IterationOrder log order) (m tick' : Nat) :
    ∃ u, openWal H F m tick' order log = some u ∧ u.catalog = e.catalog := by
  have hwritten : Written H F { new with wal := some [], tick } [] :=
    ⟨fun r hr => (by cases hr), fun txn h => (by cases h), fun r hr => (by cases hr),
      fun r hr => (by cases hr)⟩
  have hlogged : Logged H F { new with wal := some [], tick } [] :=
    ⟨rfl, fun p hp => (by cases hp), rfl, fun txn h => (by cases h)⟩
  have hnext : QueryEngine.new.txnManager.nextId.toNat = 1 := rfl
  obtain ⟨log', hlogged, hwritten⟩ := session_logged hcmd hlogged hwritten
    (by simp only [hnext]; decide) (by simp only [hnext]; omega) hrun
  have hsame := hlogged.wal
  cases hlog.symm.trans hsame
  obtain ⟨hbegin, hcommit⟩ := command_begin hH
  obtain ⟨v, hv, hcat⟩ := replayWal_of_logged hlogged hwritten hbegin hcommit hreorder horder
    (u := { new with tick := tick' }) rfl rfl
  exact ⟨{ v with wal := some log }, by rw [openWal, hv]; rfl, hcat⟩

/-- A transaction on one table, and a later statement on another. -/
def twoTables : List String :=
  ["CREATE TABLE t (a INT)", "BEGIN", "INSERT INTO t VALUES (1)", "COMMIT",
    "CREATE TABLE u (a INT)"]

def twoTablesLog : List WalRecord :=
  [.autocommit "CREATE TABLE t (a INT)", .beginTxn 1, .txnDml 1 "INSERT INTO t VALUES (1)",
    .commit 1, .autocommit "CREATE TABLE u (a INT)"]

theorem twoTables_restored :
    ∃ e, run (sessionStep Host.ascii Frontend.closed 0) { new with wal := some [], tick := 0 }
        twoTables = some e ∧
      e.wal = some twoTablesLog ∧
      ∃ u, openWal Host.ascii Frontend.closed 0 0 [1] twoTablesLog = some u ∧
        u.catalog = e.catalog := by
  -- One evaluation for all that is needed of the session.
  have hfacts : (run (sessionStep Host.ascii Frontend.closed 0)
        { new with wal := some [], tick := 0 } twoTables).map (·.wal) =
          some (some twoTablesLog) ∧
      (∀ sql ∈ twoTables, (command Host.ascii Frontend.closed sql).isSome = true) ∧
      ∀ name ∈ textTables Host.ascii Frontend.closed "INSERT INTO t VALUES (1)",
        name ∉ textTables Host.ascii Frontend.closed "CREATE TABLE u (a INT)" := by
    decide +kernel
  obtain ⟨hwal, hcmd, hdisjoint⟩ := hfacts
  obtain ⟨e, hrun, hlog⟩ := Option.map_eq_some_iff.mp hwal
  have hreorder : Reorderable Host.ascii Frontend.closed twoTablesLog := by
    have hentries : entries twoTablesLog = [(0, "CREATE TABLE t (a INT)"),
        (1, "INSERT INTO t VALUES (1)"), (0, "CREATE TABLE u (a INT)")] := by decide +kernel
    rw [Reorderable, hentries]
    simp [commute_of_textTables hdisjoint]
  have horder : IterationOrder twoTablesLog [1] := by
    refine ⟨by decide, fun id => ?_⟩
    have hmem : (∃ r ∈ twoTablesLog, r.txnId = id) ↔ id ∈ [0, 1, 1, 1, 0] := mem_map.symm
    rw [hmem]
    constructor
    · intro h
      rw [mem_singleton.mp h]
      decide
    · rintro ⟨hne, h⟩
      simpa [hne] using h
  exact ⟨e, hrun, hlog, recovery_restores Host.ascii Host.lowersAscii_ascii Frontend.closed 0 0
    twoTables hcmd (by decide) e hrun twoTablesLog hlog hreorder [1] horder 0 0⟩

/-- A transaction that inserts a row, and a later statement that deletes it. -/
def deletedLater : List String :=
  ["CREATE TABLE t (a INT)", "BEGIN", "INSERT INTO t VALUES (1)", "COMMIT", "DELETE FROM t"]

/-- The row is back after `open`: the DELETE was executed before the transaction. -/
theorem deleted_row_restored :
    (∀ sql ∈ deletedLater, (command Host.ascii Frontend.closed sql).isSome = true) ∧
    ((run (sessionStep Host.ascii Frontend.closed 0) { new with wal := some [], tick := 0 }
        deletedLater).bind fun e => (e.catalog.get "t").map (·.rowCount)) = some 0 ∧
    ((run (sessionStep Host.ascii Frontend.closed 0) { new with wal := some [], tick := 0 }
        deletedLater).bind fun e => (e.wal.bind (openWal Host.ascii Frontend.closed 0 0 [1])).bind
          fun u => (u.catalog.get "t").map (·.rowCount)) = some 1 := by
  decide +kernel

end QueryEngine

end TensorVault
