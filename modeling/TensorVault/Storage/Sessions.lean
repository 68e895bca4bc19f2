import TensorVault.Storage.Replay

/-!
# Sessions on one data directory

Each session opens the engine on the log the ones before it left, and stops at any point. `durable`
says which statements should count. Ids start at 1 in every session, so an id that one session
commits brings back what another left unfinished under it. `IdsApart` excludes just this, and
`history_restored` is the result for all histories.
-/

namespace TensorVault

open Run List

namespace QueryEngine

variable {H : Host} {F : Frontend} {log : List WalRecord} {live : UInt64 → Bool}

open Wal

/-! ## Histories -/

/-- A session: the clock when it starts, the room on its stack, and the statements it gets to. -/
structure Session where
  tick : Nat
  depth : Nat
  texts : List String

/-- The log after a session on the given log. -/
def sessionLog (H : Host) (F : Frontend) (log : List WalRecord) (s : Session) :
    Option (List WalRecord) :=
  match withDataDir H F s.depth s.tick log with
  | none => none
  | some e =>
    match run (sessionStep H F s.depth) e s.texts with
    | none => none
    | some e' => e'.wal

def Session.commands (H : Host) (F : Frontend) (s : Session) : List Command :=
  s.texts.filterMap (command H F)

/-! ## What should be restored -/

/-- The statements of a session that count, in order. The first argument has the statements of
the open transaction. -/
def durable : Option (List TableStatement) → List Command → List TableStatement
  | _, [] => []
  | none, .beginTxn :: cs => durable (some []) cs
  | some p, .beginTxn :: cs => durable (some p) cs
  | none, .commit :: cs => durable none cs
  | some p, .commit :: cs => p ++ durable none cs
  | _, .rollback :: cs => durable none cs
  | none, .table s :: cs => s :: durable none cs
  | some p, .table s :: cs => durable (some (p ++ [s])) cs

/-- The statements of a whole history that count. -/
def durableHistory (H : Host) (F : Frontend) (history : List Session) : List TableStatement :=
  history.flatMap fun s => durable none (s.commands H F)

/-! ## Transactions and their ids -/

structure TxnShape where
  id : UInt64
  committed : Bool
  statements : List TableStatement

variable {ts : List TxnShape} {history : List Session}
    {pend : Option (UInt64 × List TableStatement)}

/-- The transactions of a session; `next` is the id of the next one. -/
def txns : UInt64 → Option (UInt64 × List TableStatement) → List Command → List TxnShape
  | _, none, [] => []
  | _, some (id, p), [] => [⟨id, false, p⟩]
  | next, none, .beginTxn :: cs => txns (next + 1) (some (next, [])) cs
  | next, some t, .beginTxn :: cs => txns next (some t) cs
  | next, none, .commit :: cs => txns next none cs
  | next, some (id, p), .commit :: cs => ⟨id, true, p⟩ :: txns next none cs
  | next, none, .rollback :: cs => txns next none cs
  | next, some (id, p), .rollback :: cs => ⟨id, false, p⟩ :: txns next none cs
  | next, none, .table _ :: cs => txns next none cs
  | next, some (id, p), .table s :: cs => txns next (some (id, p ++ [s])) cs

def Session.txns (H : Host) (F : Frontend) (s : Session) : List TxnShape :=
  QueryEngine.txns 1 none (s.commands H F)

/-- The transactions of a history. -/
def historyTxns (H : Host) (F : Frontend) (history : List Session) : List TxnShape :=
  history.flatMap (Session.txns H F)

/-- No id of a transaction that had statements and did not commit is committed by another
transaction of the history. Id 0 is that of statements outside transactions. -/
def IdsApart (H : Host) (F : Frontend) (history : List Session) : Prop :=
  ∀ t ∈ historyTxns H F history, t.committed = false → t.statements ≠ [] →
    t.id ≠ 0 ∧ ∀ u ∈ historyTxns H F history, u.committed = true → u.id ≠ t.id

/-- Ids count as they should for the given transactions. -/
def Fits (live : UInt64 → Bool) (ts : List TxnShape) : Prop :=
  ∀ t ∈ ts, (t.committed = true → live t.id = true) ∧
    (t.committed = false → t.statements ≠ [] → live t.id = false)

/-! ## The ids that are committed -/

/-- The nonzero ids with a COMMIT record, now or from a transaction still to come. -/
def CommitsOf (log : List WalRecord) (ts : List TxnShape) (id : UInt64) : Prop :=
  id ∈ committedTxns log ∨ ∃ t ∈ ts, t.committed = true ∧ t.id = id

variable {t : TxnShape} {id : UInt64} {r : WalRecord} {later : List Session} {cat : Catalog}
  {log' : List WalRecord}

theorem commitsOf_cons :
    CommitsOf log (t :: ts) id ↔ CommitsOf log ts id ∨ (t.committed = true ∧ t.id = id) := by
  unfold CommitsOf
  rw [exists_mem_cons_iff, or_assoc]
  exact or_congr_right or_comm

theorem commitsOf_marker (h : r.isCommit = false) :
    CommitsOf (log ++ [r]) ts id ↔ CommitsOf log ts id := by
  have hnone : committedTxns [r] = [] := by simp [committedTxns, h]
  unfold CommitsOf
  rw [committedTxns_append, hnone, append_nil]

theorem commitsOf_commit {own : UInt64} (hid : id ≠ 0) :
    CommitsOf (log ++ [.commit own]) ts id ↔
      CommitsOf log ts id ∨ own = id := by
  have hmem : id ∈ committedTxns [.commit own] ↔ own = id := by
    simp only [committedTxns, WalRecord.commit, mem_map, mem_filter, mem_singleton]
    constructor
    · rintro ⟨r, ⟨rfl, -⟩, h⟩
      exact h
    · rintro rfl
      exact ⟨_, ⟨rfl, by simpa using hid⟩, rfl⟩
  unfold CommitsOf
  rw [committedTxns_append, mem_append, hmem, or_right_comm]

/-! ## One session -/

/-- The open transaction and the statements it has had so far. -/
def Pending (H : Host) (e : QueryEngine) : Option (UInt64 × List TableStatement) → Prop
  | none => e.txnManager.active = none
  | some (id, p) => ∃ snapshot, e.txnManager.active = some ⟨id, snapshot⟩ ∧
      run (TableStatement.effect H) e.catalog p = some snapshot

/-- The catalog the log should lead to: that of the open transaction if its id counts. -/
def loggedCatalog (live : UInt64 → Bool) (e : QueryEngine) : Catalog :=
  match e.txnManager.active with
  | some txn => if live txn.id then txn.snapshot else e.catalog
  | none => e.catalog

/-- The log and the engine agree on the catalog, whether the open transaction counts or not. -/
def Replays (H : Host) (F : Frontend) (live : UInt64 → Bool) (log : List WalRecord)
    (e : QueryEngine) : Prop :=
  Journal.replay (textEffect H F) live new.catalog (entries log) = some (e.loggedCatalog live)

section Step

variable {e e' : QueryEngine} {txn : Transaction} {p : List TableStatement} {c : Command}
  {cs : List Command}

theorem Pending.eq_none (h : Pending H e pend) (hidle : e.txnManager.active = none) :
    pend = none := by
  match pend, h with
  | none, _ => rfl
  | some _, ⟨_, hactive, _⟩ => cases hidle.symm.trans hactive

theorem Pending.eq_some (h : Pending H e pend) (hactive : e.txnManager.active = some txn) :
    ∃ p, pend = some (txn.id, p) ∧
      run (TableStatement.effect H) e.catalog p = some txn.snapshot := by
  match pend, h with
  | none, hidle => cases hactive.symm.trans hidle
  | some (_, p), ⟨_, hopen, hrun⟩ =>
    cases hopen.symm.trans hactive
    exact ⟨p, rfl, hrun⟩

theorem loggedCatalog_idle (h : e.txnManager.active = none) : e.loggedCatalog live = e.catalog := by
  rw [loggedCatalog, h]

theorem loggedCatalog_open (h : e.txnManager.active = some txn) :
    e.loggedCatalog live = if live txn.id then txn.snapshot else e.catalog := by
  rw [loggedCatalog, h]

/-- A transaction with an id that does not count is lost, and so is one without statements. -/
theorem loggedCatalog_lost (hactive : e.txnManager.active = some txn)
    (hrun : run (TableStatement.effect H) e.catalog p = some txn.snapshot)
    (hdead : p ≠ [] → live txn.id = false) : e.loggedCatalog live = e.catalog := by
  rw [loggedCatalog_open hactive]
  by_cases hp : p = []
  · subst hp
    rw [Option.some.inj hrun, ite_self]
  · rw [hdead hp]
    rfl

theorem Plain.marker (h : Plain H F log) (hr : entries [r] = []) : Plain H F (log ++ [r]) := by
  intro p hp
  rw [entries_append, hr, append_nil] at hp
  exact h p hp

theorem Replays.marker (h : Replays H F live log e) (hr : entries [r] = [])
    (hsame : e'.loggedCatalog live = e.loggedCatalog live) : Replays H F live (log ++ [r]) e' := by
  rw [Replays, entries_append, hr, append_nil, hsame]
  exact h

/-- What a command carries over: the records it appends are those of the transactions it ends, the
log and the engine stay in step, the transactions still to come are those of the remaining commands,
and the statements that count lead on from here. -/
structure Carried (H : Host) (F : Frontend) (e e' : QueryEngine)
    (pend : Option (UInt64 × List TableStatement)) (c : Command) (cs : List Command)
    (log log' : List WalRecord) (pend' : Option (UInt64 × List TableStatement)) : Prop where
  wal : e'.wal = some log'
  plain : Plain H F log'
  pending : Pending H e' pend'
  commits : ∀ id ≠ 0, CommitsOf log' (txns e'.txnManager.nextId pend' cs) id ↔
    CommitsOf log (txns e.txnManager.nextId pend (c :: cs)) id
  fits : ∀ live, Fits live (txns e.txnManager.nextId pend (c :: cs)) →
    Fits live (txns e'.txnManager.nextId pend' cs)
  replays : ∀ live, live 0 = true → Fits live (txns e.txnManager.nextId pend (c :: cs)) →
    Replays H F live log e → Replays H F live log' e'
  durable : ∀ cat, run (TableStatement.effect H) e'.catalog
    (durable (pend'.map Prod.snd) cs) = some cat →
      run (TableStatement.effect H) e.catalog (durable (pend.map Prod.snd) (c :: cs)) = some cat

theorem Fits.tail (h : Fits live (t :: ts)) :
    Fits live ts := (forall_mem_cons.mp h).2

/-- A command that leaves the engine as it is. -/
theorem Carried.same {pend'} (hsame : e' = e)
    (hwal : e.wal = some log) (hplain : Plain H F log) (hpend : Pending H e pend')
    (htxns : txns e.txnManager.nextId pend (c :: cs) = txns e.txnManager.nextId pend' cs)
    (hdurable : ∀ cat, run (TableStatement.effect H) e.catalog
      (QueryEngine.durable (pend'.map Prod.snd) cs) = some cat →
        run (TableStatement.effect H) e.catalog
          (QueryEngine.durable (pend.map Prod.snd) (c :: cs)) = some cat) :
    Carried H F e e' pend c cs log log pend' := by
  subst hsame
  exact
    { wal := hwal, plain := hplain, pending := hpend
      commits := fun _ _ => by rw [htxns]
      fits := fun _ h => by rwa [htxns] at h
      replays := fun _ _ _ h => h
      durable := hdurable }

theorem carried {sql : String} (hc : command H F sql = some c)
    (hstep : CommandStep H sql e e' c) (hwal : e.wal = some log) (hplain : Plain H F log)
    (hpend : Pending H e pend) : ∃ log' pend', Carried H F e e' pend c cs log log' pend' := by
  cases hstep with
  | began hidle hcat htxn hw =>
    obtain rfl := hpend.eq_none hidle
    refine ⟨_, some (e.txnManager.nextId, []),
      { wal := by rw [hw, hwal]; rfl
        plain := hplain.marker rfl
        pending := ⟨e.catalog, by rw [htxn], by rw [hcat]; rfl⟩
        commits := fun _ _ => by rw [commitsOf_marker rfl, htxn]; rfl
        fits := fun _ h => by rw [htxn]; exact h
        replays := fun live _ _ h => h.marker rfl ?_
        durable := fun cat h => by rw [hcat] at h; exact h }⟩
    rw [loggedCatalog, htxn, hcat, loggedCatalog_idle hidle]
    exact ite_self _
  | beginRefused hactive hsame =>
    obtain ⟨txn, hactive⟩ := Option.isSome_iff_exists.mp hactive
    obtain ⟨p, rfl, -⟩ := hpend.eq_some hactive
    exact ⟨log, _, .same hsame hwal hplain hpend rfl fun _ h => h⟩
  | committed txn hactive hcat htxn hw =>
    obtain ⟨p, rfl, hrun⟩ := hpend.eq_some hactive
    refine ⟨_, none,
      { wal := by rw [hw, hwal]; rfl
        plain := hplain.marker rfl
        pending := by rw [Pending, htxn]
        commits := fun id hid => by rw [commitsOf_commit hid, htxn, txns, commitsOf_cons]; simp
        fits := fun _ h => by rw [htxn]; exact h.tail
        replays := fun live _ hfits h => h.marker rfl ?_
        durable := fun cat h => ?_ }⟩
    · have hlive := (hfits ⟨txn.id, true, p⟩ mem_cons_self).1 rfl
      rw [loggedCatalog_idle (by rw [htxn]), loggedCatalog_open hactive, if_pos hlive, hcat]
    · rw [hcat] at h
      show run _ _ (p ++ _) = _
      rw [run_append, hrun]
      exact h
  | rolledBack txn hactive hcat htxn hw =>
    obtain ⟨p, rfl, hrun⟩ := hpend.eq_some hactive
    refine ⟨_, none,
      { wal := by rw [hw, hwal]; rfl
        plain := hplain.marker rfl
        pending := by rw [Pending, htxn]
        commits := fun _ _ => by rw [commitsOf_marker rfl, htxn, txns, commitsOf_cons]; simp
        fits := fun _ h => by rw [htxn]; exact h.tail
        replays := fun live _ hfits h => h.marker rfl ?_
        durable := fun cat h => by rw [hcat] at h; exact h }⟩
    rw [loggedCatalog_idle (by rw [htxn]), hcat, loggedCatalog_lost hactive hrun
      ((hfits ⟨txn.id, false, p⟩ mem_cons_self).2 rfl)]
  | commitRefused hidle hsame | rollbackRefused hidle hsame =>
    obtain rfl := hpend.eq_none hidle
    exact ⟨log, none, .same hsame hwal hplain hpend rfl fun _ h => h⟩
  | failed s hsame heffect =>
    cases hactive : e.txnManager.active with
    | none =>
      obtain rfl := hpend.eq_none hactive
      rw [workingCatalog_idle hactive] at heffect
      refine ⟨log, none, .same hsame hwal hplain hpend rfl fun cat h => ?_⟩
      show run _ _ (s :: _) = _
      rw [run_cons_of_step heffect]
      exact h
    | some txn =>
      obtain ⟨p, rfl, hrun⟩ := hpend.eq_some hactive
      rw [workingCatalog_open hactive] at heffect
      refine ⟨log, some (txn.id, p ++ [s]),
        .same hsame hwal hplain ⟨txn.snapshot, hactive, ?_⟩ rfl fun _ h => h⟩
      rw [run_append, hrun, Option.bind_some, run_cons_of_step heffect]
      rfl
  | autocommitted s hidle heffect htxn hw =>
    obtain rfl := hpend.eq_none hidle
    have hs := tableStatement_of_command hc
    refine ⟨_, none,
      { wal := by rw [hw, hwal]; rfl
        plain := hplain.append_statement hs
        pending := by rw [Pending, htxn, hidle]
        commits := fun _ _ => by rw [commitsOf_marker rfl, htxn]; rfl
        fits := fun _ h => by rw [htxn]; exact h
        replays := fun live h0 _ h => ?_
        durable := fun cat h => ?_ }⟩
    · rw [Replays, loggedCatalog_idle hidle] at h
      rw [Replays, loggedCatalog_idle (by rw [htxn, hidle])]
      exact (replay_statement_live h hs h0).trans heffect
    · show run _ _ (s :: _) = _
      rw [run_cons_of_step heffect]
      exact h
  | inTxn s txn snapshot hactive heffect hcat htxn hw =>
    obtain ⟨p, rfl, hrun⟩ := hpend.eq_some hactive
    have hs := tableStatement_of_command hc
    refine ⟨_, some (txn.id, p ++ [s]),
      { wal := by rw [hw, hwal]; rfl
        plain := hplain.append_statement hs
        pending := ⟨snapshot, by rw [htxn], ?_⟩
        commits := fun _ _ => by rw [commitsOf_marker rfl, htxn]; rfl
        fits := fun _ h => by rw [htxn]; exact h
        replays := fun live _ _ h => ?_
        durable := fun cat h => by rw [hcat] at h; exact h }⟩
    · rw [hcat, run_append, hrun, Option.bind_some, run_cons_of_step heffect]
      rfl
    · have hopen : e'.txnManager.active = some ⟨txn.id, snapshot⟩ := by rw [htxn]
      rw [Replays, loggedCatalog_open hactive] at h
      rw [Replays, loggedCatalog_open hopen]
      by_cases hlive : live txn.id = true
      · rw [if_pos hlive] at h ⊢
        exact (replay_statement_live h hs hlive).trans heffect
      · rw [if_neg hlive] at h ⊢
        rw [replay_statement_dead hs (Bool.not_eq_true _ ▸ hlive), h, hcat]

end Step

/-- **One session.** Its COMMIT records are those of its committed transactions, and for ids that
count as they should, its log leads to the catalog that the statements that count lead to. -/
theorem session_restores {n : Nat} {texts : List String}
    (hcmd : ∀ sql ∈ texts, (command H F sql).isSome = true) {e e' : QueryEngine}
    (hwal : e.wal = some log) (hplain : Plain H F log) (hpend : Pending H e pend)
    (hrun : run (sessionStep H F n) e texts = some e') :
    ∃ log' cat, e'.wal = some log' ∧ Plain H F log' ∧
      (∀ id ≠ 0, id ∈ committedTxns log' ↔
        CommitsOf log (txns e.txnManager.nextId pend (texts.filterMap (command H F))) id) ∧
      run (TableStatement.effect H) e.catalog
        (durable (pend.map Prod.snd) (texts.filterMap (command H F))) = some cat ∧
      ∀ live, live 0 = true →
        Fits live (txns e.txnManager.nextId pend (texts.filterMap (command H F))) →
        Replays H F live log e →
        Journal.replay (textEffect H F) live new.catalog (entries log') = some cat := by
  induction texts generalizing e log pend with
  | nil =>
    obtain rfl : e = e' := Option.some.inj hrun
    -- a session that stops with a transaction open has not committed it
    match pend, hpend with
    | none, hidle =>
      exact ⟨log, e.catalog, hwal, hplain, fun id _ => by simp [CommitsOf, txns], rfl,
        fun live _ _ h => h.trans (congrArg some (loggedCatalog_idle hidle))⟩
    | some (id, p), ⟨snapshot, hactive, hp⟩ =>
      exact ⟨log, e.catalog, hwal, hplain, fun id _ => by simp [CommitsOf, txns], rfl,
        fun live _ hfits h => h.trans (congrArg some (loggedCatalog_lost hactive hp
          ((hfits ⟨id, false, p⟩ mem_cons_self).2 rfl)))⟩
  | cons sql texts ih =>
    obtain ⟨c, hc⟩ := Option.isSome_iff_exists.mp (hcmd sql mem_cons_self)
    obtain ⟨u, hstep, hrun⟩ := run_cons hrun
    rw [filterMap_cons_some hc]
    obtain ⟨log₁, pend₁, hcarried⟩ := carried hc
      (commandStep_of_sessionStep hc hstep) hwal hplain hpend
    obtain ⟨log', cat, hwal', hplain', hcommits, hdurable, hreplay⟩ :=
      ih (forall_mem_cons.mp hcmd).2 hcarried.wal hcarried.plain
        hcarried.pending hrun
    exact ⟨log', cat, hwal', hplain',
      fun id hid => (hcommits id hid).trans (hcarried.commits id hid),
      hcarried.durable cat hdurable, fun live h0 hfits h =>
        hreplay live h0 (hcarried.fits live hfits) (hcarried.replays live h0 hfits h)⟩

/-! ## A whole history -/

/-- The COMMIT records of the log are those of the history. -/
def CommitsMatch (H : Host) (F : Frontend) (history : List Session) (log : List WalRecord) : Prop :=
  ∀ id ≠ 0, id ∈ committedTxns log ↔
    ∃ t ∈ historyTxns H F history, t.committed = true ∧ t.id = id

/-- Where ids are apart, the ids that replay finds committed count as they should. -/
theorem CommitsMatch.fits (h : CommitsMatch H F history log) (hids : IdsApart H F history) :
    Fits (isLive log) (historyTxns H F history) := by
  intro t ht
  constructor
  · intro hcommitted
    by_cases hid : t.id = 0
    · simp [isLive, hid]
    · have hmem := (h t.id hid).mpr ⟨t, ht, hcommitted, rfl⟩
      simp [isLive, hmem]
  · intro hcommitted hstatements
    obtain ⟨hid, hapart⟩ := hids t ht hcommitted hstatements
    have hnot : t.id ∉ committedTxns log := by
      intro hmem
      obtain ⟨u, hu, hucommitted, hueq⟩ := (h t.id hid).mp hmem
      exact hapart u hu hucommitted hueq
    simp [isLive, hid, hnot]

theorem historyTxns_append (history later : List Session) :
    historyTxns H F (history ++ later) = historyTxns H F history ++ historyTxns H F later :=
  flatMap_append

theorem IdsApart.of_append (h : IdsApart H F (history ++ later)) : IdsApart H F history := by
  intro t ht hcommitted hstatements
  rw [IdsApart, historyTxns_append] at h
  obtain ⟨hid, hapart⟩ := h t (mem_append_left _ ht) hcommitted hstatements
  exact ⟨hid, fun u hu => hapart u (mem_append_left _ hu)⟩

/-- What the log of a history is good for: for all ids that count as they should, it leads to the
catalog of the statements that count. -/
structure Restores (H : Host) (F : Frontend) (history : List Session) (log : List WalRecord)
    (cat : Catalog) : Prop where
  plain : Plain H F log
  durable : run (TableStatement.effect H) new.catalog (durableHistory H F history) = some cat
  replay : ∀ live, live 0 = true → Fits live (historyTxns H F history) →
    Journal.replay (textEffect H F) live new.catalog (entries log) = some cat
  commits : CommitsMatch H F history log

/-- `with_data_dir` on such a log. -/
theorem Restores.withDataDir (h : Restores H F history log cat)
    (hids : IdsApart H F history) {n tick : Nat} :
    ∃ e, withDataDir H F n tick log = some e ∧ e.catalog = cat ∧
      e.txnManager = new.txnManager ∧ e.savepoints = [] ∧ e.wal = some log :=
  withDataDir_catalog h.plain (h.replay _ rfl (h.commits.fits hids))

theorem Restores.empty (H : Host) (F : Frontend) : Restores H F [] [] new.catalog where
  plain := fun p hp => by cases hp
  durable := rfl
  replay := fun _ _ _ => rfl
  commits := fun id _ => by simp [committedTxns, historyTxns]

/-- One more session. -/
theorem Restores.session (h : Restores H F history log cat)
    {s : Session} (hcmd : ∀ sql ∈ s.texts, (command H F sql).isSome = true)
    (hids : IdsApart H F (history ++ [s])) (hlog : sessionLog H F log s = some log') :
    ∃ cat', Restores H F (history ++ [s]) log' cat' := by
  obtain ⟨e, hopen, hcat, htxn, -, hwal⟩ := h.withDataDir hids.of_append
  unfold sessionLog at hlog
  rw [hopen] at hlog
  simp only at hlog
  split at hlog
  · cases hlog
  next e' hrun =>
  have hactive : e.txnManager.active = none := by rw [htxn]; rfl
  have hnext : e.txnManager.nextId = 1 := by rw [htxn]; rfl
  have htxns : historyTxns H F (history ++ [s]) = historyTxns H F history ++ s.txns H F := by
    rw [historyTxns_append]
    exact congrArg _ (flatMap_singleton _ _)
  have hpend : Pending H e none := hactive
  obtain ⟨log₁, cat', hwal₁, hplain, hcommits, hdurable, hreplay⟩ :=
    session_restores hcmd hwal h.plain hpend hrun
  cases hlog.symm.trans hwal₁
  rw [hnext] at hcommits hreplay
  rw [hcat] at hdurable
  refine ⟨cat', hplain, ?_, fun live h0 hfits => ?_, fun id hid => ?_⟩
  · have hhistory : durableHistory H F (history ++ [s]) =
        durableHistory H F history ++ QueryEngine.durable none (s.commands H F) := by
      simp [durableHistory]
    rw [hhistory, run_append, h.durable]
    exact hdurable
  · rw [htxns] at hfits
    refine hreplay live h0 (fun t ht => hfits t (mem_append_right _ ht)) ?_
    rw [Replays, loggedCatalog_idle hactive, hcat]
    exact h.replay live h0 fun t ht => hfits t (mem_append_left _ ht)
  · rw [hcommits id hid, CommitsOf, h.commits id hid, htxns]
    simp only [mem_append, or_and_right, exists_or]
    rfl

theorem restores_of_run {earlier : List Session}
    (hcmd : ∀ s ∈ later, ∀ sql ∈ s.texts, (command H F sql).isSome = true)
    (hids : IdsApart H F (earlier ++ later))
    (h : Restores H F earlier log cat) (hrun : run (sessionLog H F) log later = some log') :
    ∃ cat', Restores H F (earlier ++ later) log' cat' := by
  induction later generalizing earlier log cat with
  | nil =>
    cases hrun
    rw [append_nil]
    exact ⟨cat, h⟩
  | cons s later ih =>
    obtain ⟨log₁, hlog, hrun⟩ := run_cons hrun
    rw [append_cons] at hids ⊢
    obtain ⟨cat₁, h₁⟩ := h.session (hcmd s mem_cons_self) hids.of_append hlog
    exact ih (forall_mem_cons.mp hcmd).2 hids h₁ hrun

/-- **Histories.** For every history of sessions on one data directory in which no id of an
uncommitted transaction is committed by another transaction, the next `with_data_dir` restores
exactly what the statements outside transactions and those of committed transactions lead to. -/
theorem history_restored (H : Host) (F : Frontend) (history : List Session)
    (hcmd : ∀ s ∈ history, ∀ sql ∈ s.texts, (command H F sql).isSome = true)
    (hids : IdsApart H F history) (log : List WalRecord)
    (hrun : run (sessionLog H F) [] history = some log) (n tick : Nat) :
    ∃ e, withDataDir H F n tick log = some e ∧
      run (TableStatement.effect H) new.catalog (durableHistory H F history) =
        some e.catalog := by
  have hempty := Restores.empty H F
  rw [← nil_append history] at hids
  obtain ⟨cat, h⟩ := restores_of_run hcmd hids hempty hrun
  obtain ⟨e, hopen, hcat, -⟩ := h.withDataDir hids
  exact ⟨e, hopen, h.durable.trans (congrArg some hcat.symm)⟩

/-- Two sessions that keep their ids apart: the first commits under 1 and leaves 2 open, the next
commits under 1 again. -/
def apartHistory : List Session :=
  [⟨0, 0, ["CREATE TABLE t (a INT)", "BEGIN", "COMMIT", "BEGIN", "INSERT INTO t VALUES (2)"]⟩,
    ⟨9, 0, ["BEGIN", "INSERT INTO t VALUES (3)", "COMMIT"]⟩]

theorem apartHistory_restored :
    ∃ log, run (sessionLog Host.ascii Frontend.closed) [] apartHistory = some log ∧
      ∃ e, withDataDir Host.ascii Frontend.closed 0 0 log = some e ∧
        run (TableStatement.effect Host.ascii) new.catalog
          (durableHistory Host.ascii Frontend.closed apartHistory) = some e.catalog := by
  have hids : IdsApart Host.ascii Frontend.closed apartHistory := by
    unfold IdsApart
    decide +kernel
  refine (Option.isSome_iff_exists.mp (by decide +kernel)).imp fun log hlog => ⟨hlog, ?_⟩
  exact history_restored Host.ascii Frontend.closed apartHistory
    (by decide +kernel) hids log hlog 0 0

/-- A crash in transaction 1, then an empty transaction 1. -/
def reusedHistory : List Session :=
  [⟨0, 0, ["CREATE TABLE t (a INT)", "BEGIN", "INSERT INTO t VALUES (1)"]⟩,
    ⟨0, 0, ["BEGIN", "COMMIT"]⟩]

/-- The row of the unfinished transaction is there after the next start. -/
theorem unfinished_insert_restored :
    (∀ s ∈ reusedHistory, ∀ sql ∈ s.texts,
      (command Host.ascii Frontend.closed sql).isSome = true) ∧
    (((run (sessionLog Host.ascii Frontend.closed) [] reusedHistory).bind
        (withDataDir Host.ascii Frontend.closed 0 0)).map
      fun e => (e.catalog.get "t").map (·.rowCount)) = some (some 1) ∧
    ((run (TableStatement.effect Host.ascii) new.catalog
        (durableHistory Host.ascii Frontend.closed reusedHistory)).map
      fun cat => (cat.get "t").map (·.rowCount)) = some (some 0) := by
  decide +kernel

end QueryEngine

end TensorVault
