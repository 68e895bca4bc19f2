import TensorVault.Server.Database
import TensorVault.Server.Trace

/-!
# Connections that share an engine

The engine has room for one transaction. BEGIN over the extended protocol opens it for everybody:
from then on every statement of every connection goes to the snapshot, where a read-only SELECT does
not see it, and is lost if the transaction is rolled back.

`Isolated` says of the record of calls that statements outside a transaction take effect at once,
and that what COMMIT installs is the block of the connection itself, on top of the catalog as it is.
`isolated_of_orderly`: it holds if nobody else uses the engine while a transaction is open.
-/

namespace TensorVault.Server

open Text Proc Run QueryEngine List Option

/-! ## The system -/

/-- A call of `execute`. -/
structure Call where
  /-- The connection. -/
  caller : Nat
  sql : String
  before : QueryEngine
  after : QueryEngine
  result : Except Error QueryResult

/-- The engine, with a record of the calls. -/
structure Traced where
  engine : QueryEngine
  /-- The connection whose message is handled. -/
  caller : Nat
  calls : List Call

/-- What the connections share, and each of them. -/
structure System (δ : Type) where
  conns : Nat → PgConn
  shared : Shared Traced δ

section System

variable {δ : Type} (C : EngineConfig δ)

def EngineConfig.traced : ServerConfig Traced δ where
  host := C.host
  authRequired := C.authRequired
  overflowChecks := C.overflowChecks
  primitives := C.primitives
  tryReadonlySelect s := C.readonly s.engine
  execute s sql := (C.execute s.engine sql).map fun p =>
    ({ s with engine := p.1, calls := s.calls ++ [⟨s.caller, sql, s.engine, p.1, p.2⟩] }, p.2)
  randomSalt := C.randomSalt
  randomServerNonce := C.randomServerNonce

/-- The world of a connection while it handles a message. -/
def System.world (s : System δ) (i : Nat) : World (Shared Traced δ) where
  conn := s.conns i
  shared := { s.shared with engine := { s.shared.engine with caller := i } }
  input := []
  log := []

/-- A connection handles a message. A panic ends the process. -/
def System.step (s : System δ) (a : Nat × Message) : Option (System δ) :=
  match handleMessage C.traced.services a.2 (s.world a.1) with
  | (.error .panicked, _) => none
  | (_, w) => some
    { conns := fun i => if i = a.1 then w.conn else s.conns i
      shared := w.shared }

/-! ## The record -/

/-- The calls lead from the first engine to the second. -/
inductive Linked (e₀ : QueryEngine) : List Call → QueryEngine → Prop where
  | nil : Linked e₀ [] e₀
  | concat {calls : List Call} (c : Call) (h : Linked e₀ calls c.before)
      (hreply : C.execute c.before c.sql = some (c.after, c.result)) :
      Linked e₀ (calls ++ [c]) c.after

/-- The calls go on. -/
def Extends (w w' : World (Shared Traced δ)) : Prop :=
  ∀ e₀, Linked C e₀ w.shared.engine.calls w.shared.engine.engine →
    Linked C e₀ w'.shared.engine.calls w'.shared.engine.engine

theorem extends_frame : ActingFrame C.traced.services (Extends C) where
  refl _ _ h := h
  trans _ _ _ hab hbc e₀ h := hbc e₀ (hab e₀ h)
  conn _ _ _ h := h
  input _ _ _ h := h
  sent _ _ _ h := h
  passed _ _ _ h := h
  userChanged _ _ _ h := h
  createUser _ _ _ _ h := h
  dropUser _ _ _ h := h
  tryReadonlySelect w sql shared r heq e₀ h := by
    obtain ⟨_, _, hsame⟩ := map_eq_some_iff.mp heq
    cases hsame
    exact h
  execute w sql shared r heq e₀ h := by
    obtain ⟨_, hcall, hsame⟩ := map_eq_some_iff.mp heq
    obtain ⟨⟨e, res⟩, hreply, rfl⟩ := map_eq_some_iff.mp hcall
    cases hsame
    exact .concat ⟨_, sql, _, e, res⟩ h hreply

variable {C} {s s' : System δ} {e₀ : QueryEngine}

theorem Linked.step {a : Nat × Message}
    (h : Linked C e₀ s.shared.engine.calls s.shared.engine.engine) (hstep : s.step C a = some s') :
    Linked C e₀ s'.shared.engine.calls s'.shared.engine.engine := by
  have hextends := (extends_frame C).keeps_handleMessage a.2 (s.world a.1) e₀ h
  unfold System.step at hstep
  split at hstep
  · cases hstep
  · next heq =>
    cases hstep
    rwa [heq] at hextends

theorem Linked.run {as : List (Nat × Message)}
    (h : Linked C e₀ s.shared.engine.calls s.shared.engine.engine)
    (hrun : run (System.step C) s as = some s') :
    Linked C e₀ s'.shared.engine.calls s'.shared.engine.engine := by
  induction as generalizing s with
  | nil =>
    cases hrun
    exact h
  | cons a as ih =>
    obtain ⟨u, hu, hrest⟩ := run_cons hrun
    exact ih (h.step hu) hrest

/-- The call in the middle. -/
theorem Linked.split {e : QueryEngine} {pre post : List Call} {c : Call}
    (h : Linked C e₀ (pre ++ c :: post) e) :
    Linked C e₀ pre c.before ∧ C.execute c.before c.sql = some (c.after, c.result) := by
  generalize hcalls : pre ++ c :: post = calls at h
  induction h generalizing post with
  | nil => simp at hcalls
  | concat d hd hreply ih =>
    rcases eq_nil_or_concat post with rfl | ⟨post, last, rfl⟩
    · obtain ⟨rfl, hsame⟩ := append_inj' hcalls rfl
      cases hsame
      exact ⟨hd, hreply⟩
    · rw [concat_eq_append, ← cons_append, ← append_assoc] at hcalls
      exact ih (append_inj' hcalls rfl).1

end System

/-! ## Transactions in the record -/

/-- The transaction that is open after a call: the call that opened it, and those since. -/
def openStep (open_ : Option (Call × List Call)) (c : Call) : Option (Call × List Call) :=
  match c.after.txnManager.active, c.before.txnManager.active with
  | none, _ => none
  | some _, none => some (c, [])
  | some _, some _ => open_.map fun p => (p.1, p.2 ++ [c])

def openBlock (calls : List Call) : Option (Call × List Call) := calls.foldl openStep none

variable {calls : List Call} {c : Call}

theorem openBlock_concat : openBlock (calls ++ [c]) = openStep (openBlock calls) c := by
  rw [openBlock, foldl_append]
  rfl

/-- The call is made in a transaction of the connection. -/
def InOwn (pre : List Call) (c : Call) : Prop :=
  ∃ b mid, openBlock pre = some (b, mid) ∧ b.caller = c.caller

/-- The engine without the transaction that is open. -/
def alone (e : QueryEngine) : QueryEngine :=
  { e with txnManager := { e.txnManager with active := none } }

section Isolation

variable {δ : Type} (C : EngineConfig δ)

/-- What others have done is neither hidden nor undone by a call. -/
structure Undisturbed (pre : List Call) (c : Call) : Prop where
  /-- A statement outside a transaction of its own does what it does without any transaction. -/
  statement : (∀ r ∈ [OuterRoute.beginTxn, .commit, .rollback], outerRoute C.host c.sql ≠ r) →
    ¬ InOwn pre c →
      ∃ u r, C.execute (alone c.before) c.sql = some (u, r) ∧ c.after.catalog = u.catalog
  beginTxn : outerRoute C.host c.sql = .beginTxn → c.after.catalog = c.before.catalog
  rollback : outerRoute C.host c.sql = .rollback → c.after.catalog = c.before.catalog
  /-- COMMIT puts the block of the connection on top of the catalog there is. -/
  commit : outerRoute C.host c.sql = .commit → c.result.isOk = true →
    ∃ b mid f, openBlock pre = some (b, mid) ∧ b.caller = c.caller ∧
      b.before.catalog = c.before.catalog ∧
      reference C.host C.frontend C.depth b.after b.before (mid.map (·.sql)) = some f ∧
      c.after.catalog = f.catalog

def Isolated (calls : List Call) : Prop :=
  ∀ pre c post, calls = pre ++ c :: post → Undisturbed C pre c

/-- While a transaction is open, only the connection that opened it by BEGIN uses the engine, and
only for statements whose effect is in the snapshot. -/
def Orderly (pre : List Call) (c : Call) : Prop :=
  c.before.txnManager.active.isSome = true →
    ∃ b mid, openBlock pre = some (b, mid) ∧ b.caller = c.caller ∧
      outerRoute C.host b.sql = .beginTxn ∧
      (outerRoute C.host c.sql = .commit ∨ outerRoute C.host c.sql = .rollback ∨
        Committing C.host C.frontend C.depth c.before c.sql)

/-- The transaction that is open after the calls, and what has become of it. -/
def Tracked (pre : List Call) (e : QueryEngine) : Prop :=
  ∀ b mid, openBlock pre = some (b, mid) → outerRoute C.host b.sql = .beginTxn →
    InStep b.after b.before ∧ e.catalog = b.before.catalog ∧
      run (sessionStep C.host C.frontend C.depth) b.after (mid.map (·.sql)) = some e ∧
      Along (sessionStep C.host C.frontend C.depth) (Committing C.host C.frontend C.depth) b.after
        (mid.map (·.sql))

variable {C} {pre : List Call} {c : Call} {e₀ e : QueryEngine}

theorem Tracked.concat (h : Tracked C pre c.before)
    (hreply : C.execute c.before c.sql = some (c.after, c.result)) (horderly : Orderly C pre c) :
    Tracked C (pre ++ [c]) c.after := by
  intro b mid hopen hbegin
  rw [openBlock_concat, openStep] at hopen
  split at hopen
  · cases hopen
  · next hbefore =>
    cases hopen
    obtain ⟨hin, hcatalog⟩ := InStep.of_begin hbefore hbegin hreply
    exact ⟨hin, hcatalog, rfl, trivial⟩
  · next hafter hbefore =>
    obtain ⟨⟨b', mid'⟩, hopen', heq⟩ := map_eq_some_iff.mp hopen
    cases heq
    obtain ⟨hin, hcatalog, hrun, halong⟩ := h b' mid' hopen' hbegin
    obtain ⟨_, _, _, _, _, hsql⟩ := horderly (by rw [hbefore]; rfl)
    -- after COMMIT and ROLLBACK no transaction would be open
    have hcommitting : Committing C.host C.frontend C.depth c.before c.sql := by
      rcases hsql with hcommit | hrollback | hcommitting
      · rw [execute_ends_idle (.inl hcommit) hreply] at hafter
        cases hafter
      · rw [execute_ends_idle (.inr hrollback) hreply] at hafter
        cases hafter
      · exact hcommitting
    have hstep : sessionStep C.host C.frontend C.depth c.before c.sql = some c.after := by
      rw [sessionStep]
      exact congrArg (Option.map Prod.fst) hreply
    rw [map_append, map_singleton]
    refine ⟨hin, (hcommitting.catalog_eq hbefore hreply).trans hcatalog, ?_,
      halong.concat hrun hcommitting⟩
    rw [run_append, hrun, bind_some, run_cons_of_step hstep, run]

theorem Linked.tracked (h : Linked C e₀ calls e)
    (horderly : ∀ pre c post, calls = pre ++ c :: post → Orderly C pre c) : Tracked C calls e := by
  induction h with
  | nil =>
    intro b mid hopen
    cases hopen
  | @concat calls c h hreply ih =>
    refine (ih fun pre d post heq => ?_).concat hreply (horderly calls c [] rfl)
    exact horderly pre d (post ++ [c]) (by rw [heq, append_assoc, cons_append])

theorem Tracked.undisturbed (h : Tracked C pre c.before)
    (hreply : C.execute c.before c.sql = some (c.after, c.result)) (horderly : Orderly C pre c) :
    Undisturbed C pre c where
  statement _ hown := by
    have hidle : c.before.txnManager.active = none := by
      by_contra hactive
      obtain ⟨b, mid, hopen, hcaller, -⟩ := horderly (isSome_iff_ne_none.mpr hactive)
      exact hown ⟨b, mid, hopen, hcaller⟩
    have halone : alone c.before = c.before := by
      generalize c.before = e at hidle
      obtain ⟨catalog, ⟨nextId, active⟩, wal, im, views, procedures, temporals, savepoints, tick⟩ :=
        e
      cases hidle
      rfl
    rw [halone]
    exact ⟨c.after, c.result, hreply, rfl⟩
  beginTxn hroute := (leavesCatalog_of_begin_or_rollback (.inl hroute)).catalog_eq hreply
  rollback hroute := (leavesCatalog_of_begin_or_rollback (.inr hroute)).catalog_eq hreply
  commit hroute hok := by
    have hactive := active_of_commit hroute hreply hok
    obtain ⟨b, mid, hopen, hcaller, hbegin, -⟩ := horderly hactive
    obtain ⟨hin, hcatalog, hrun, halong⟩ := h b mid hopen hbegin
    obtain ⟨f, hf, hin'⟩ := hin.run halong hrun
    exact ⟨b, mid, f, hopen, hcaller, hcatalog.symm, hf, hin'.commit hroute hreply⟩

/-- **Isolation.** In every interleaving of messages in which nobody else uses the engine while a
transaction is open, what the connections have done is neither hidden nor undone. -/
theorem isolated_of_orderly (C : EngineConfig δ) {s s' : System δ}
    (hstart : s.shared.engine.calls = []) {as : List (Nat × Message)}
    (hrun : run (System.step C) s as = some s')
    (horderly : ∀ pre c post, s'.shared.engine.calls = pre ++ c :: post → Orderly C pre c) :
    Linked C s.shared.engine.engine s'.shared.engine.calls s'.shared.engine.engine ∧
      Isolated C s'.shared.engine.calls := by
  have hlinked : Linked C s.shared.engine.engine s.shared.engine.calls s.shared.engine.engine := by
    rw [hstart]
    exact .nil
  have hlinked' := hlinked.run hrun
  refine ⟨hlinked', fun pre c post hcalls => ?_⟩
  rw [hcalls] at hlinked'
  obtain ⟨hpre, hreply⟩ := hlinked'.split
  refine (hpre.tracked fun pre' d post' heq => ?_).undisturbed hreply (horderly pre c post hcalls)
  refine horderly pre' d (post' ++ c :: post) ?_
  rw [hcalls, heq, append_assoc, cons_append]

end Isolation

/-! ## Two interleavings -/

section

variable {δ : Type} (C : EngineConfig δ)

/-- INSERT, UPDATE or DELETE. -/
def isDml (sql : String) : Bool :=
  match outerRoute C.host sql, innerRoute C.host C.frontend sql with
  | .inner, .statement none (.dml _) => true
  | _, _ => false

/-- `Orderly` for blocks of INSERT, UPDATE and DELETE, as a test. -/
def orderlyDml (pre : List Call) (c : Call) : Bool :=
  c.before.txnManager.active.isNone ||
    match openBlock pre with
    | none => false
    | some (b, _) =>
      b.caller == c.caller && decide (outerRoute C.host b.sql = .beginTxn) &&
        (decide (outerRoute C.host c.sql = .commit) ||
          decide (outerRoute C.host c.sql = .rollback) || isDml C c.sql)

theorem orderly_of_orderlyDml {pre : List Call} (h : orderlyDml C pre c = true) :
    Orderly C pre c := by
  intro hactive
  unfold orderlyDml at h
  rw [Bool.or_eq_true] at h
  rcases h with hidle | h
  · rw [isNone_iff_eq_none] at hidle
    rw [hidle] at hactive
    cases hactive
  · split at h
    · cases h
    · next b mid hopen =>
      simp only [Bool.and_eq_true, Bool.or_eq_true, decide_eq_true_eq, beq_iff_eq] at h
      obtain ⟨⟨hcaller, hbegin⟩, hsql⟩ := h
      refine ⟨b, mid, hopen, hcaller, hbegin, ?_⟩
      rcases hsql with (hcommit | hrollback) | hdml
      · exact .inl hcommit
      · exact .inr (.inl hrollback)
      · unfold isDml at hdml
        split at hdml
        · next houter hroute => exact .inr (.inr (committing_of_dml houter hroute))
        · cases hdml

/-- The test for a whole record. -/
def allOrderlyDml (calls : List Call) : Bool :=
  (List.range calls.length).all fun k => (calls[k]?).all (orderlyDml C (calls.take k))

theorem orderly_of_allOrderlyDml (h : allOrderlyDml C calls = true)
    (pre : List Call) (c : Call) (post : List Call) (hcalls : calls = pre ++ c :: post) :
    Orderly C pre c := by
  subst hcalls
  have hk := all_eq_true.mp h pre.length (by simp)
  simp only [getElem?_append_right (Nat.le_refl _), Nat.sub_self, getElem?_cons_zero,
    take_left', all_some] at hk
  exact orderly_of_orderlyDml C hk

end

/-- A connection that executes a statement over the extended protocol. -/
def extended (i : Nat) (sql : String) : List (Nat × Message) :=
  [(i, ⟨0x50, 0 :: (bytesOf sql ++ [0, 0, 0])⟩), (i, ⟨0x42, List.replicate 8 0⟩),
    (i, ⟨0x45, List.replicate 5 0⟩)]

/-- A connection that executes a statement over the simple protocol. -/
def simple (i : Nat) (sql : String) : List (Nat × Message) := [(i, ⟨0x51, bytesOf sql ++ [0]⟩)]

/-- Connections to a server over a table of one row. -/
def oneRowSystem : System (Finset Nat) where
  conns _ := .new
  shared :=
    { engine := { engine := oneRow, caller := 0, calls := [] }, passwords := .new, drawn := 0 }

/-- A transaction of connection 0 between two statements of connection 1. -/
def orderlyMessages : List (Nat × Message) :=
  simple 1 "INSERT INTO t VALUES (1)" ++ extended 0 "BEGIN" ++
    extended 0 "INSERT INTO t VALUES (2)" ++ extended 0 "COMMIT" ++
    simple 1 "INSERT INTO t VALUES (3)"

theorem orderlyMessages_run : (run (System.step .plain) oneRowSystem orderlyMessages).map
    (fun s => (allOrderlyDml .plain s.shared.engine.calls, s.shared.engine.calls.length)) =
      some (true, 5) := by
  decide +kernel

/-- The interleaving has five calls, and is isolated. -/
theorem orderlyMessages_isolated :
    ∃ s, run (System.step .plain) oneRowSystem orderlyMessages = some s ∧
      s.shared.engine.calls.length = 5 ∧ Isolated .plain s.shared.engine.calls := by
  obtain ⟨s, hrun, hcheck⟩ := map_eq_some_iff.mp orderlyMessages_run
  have horderly := orderly_of_allOrderlyDml .plain (congrArg Prod.fst hcheck)
  exact ⟨s, hrun, congrArg Prod.snd hcheck, (isolated_of_orderly .plain rfl hrun horderly).2⟩

/-- A statement of connection 1 inside a transaction of connection 0. -/
def swallowedMessages : List (Nat × Message) :=
  extended 0 "BEGIN" ++ simple 1 "INSERT INTO t VALUES (1)" ++ extended 0 "ROLLBACK"

def rows (e : QueryEngine) : Option Nat := (e.catalog.get "t").map (·.rowCount)

/-- A call in short, with the rows there are after it and the rows there would be without the
transaction. -/
structure Summary where
  caller : Nat
  sql : String
  ok : Bool
  after : Option Nat
  alone : Option (Option Nat)
  deriving DecidableEq

def Call.summary (c : Call) : Summary where
  caller := c.caller
  sql := c.sql
  ok := c.result.isOk
  after := rows c.after
  alone := (EngineConfig.plain.execute (alone c.before) c.sql).map fun p => rows p.1

theorem swallowedMessages_run : (run (System.step .plain) oneRowSystem swallowedMessages).map
    (fun s => (s.shared.engine.calls.map Call.summary, rows s.shared.engine.engine)) =
      some ([⟨0, "BEGIN", true, some 1, some (some 1)⟩,
        ⟨1, "INSERT INTO t VALUES (1)", true, some 1, some (some 2)⟩,
        ⟨0, "ROLLBACK", true, some 1, some (some 1)⟩], some 1) := by
  decide +kernel

theorem not_inOwn_of_ne {a : Call} (h : a.caller ≠ c.caller) : ¬ InOwn [a] c := by
  rintro ⟨b, mid, hopen, hcaller⟩
  rw [show openBlock [a] = openStep none a from rfl, openStep] at hopen
  split at hopen
  · cases hopen
  · cases hopen
    exact h hcaller
  · cases hopen

/-- The INSERT is acknowledged, and its row is nowhere: not while the transaction is open, and not
after its ROLLBACK. -/
theorem swallowedMessages_not_isolated :
    ∃ s, run (System.step .plain) oneRowSystem swallowedMessages = some s ∧
      (∃ c ∈ s.shared.engine.calls, c.caller = 1 ∧ c.sql = "INSERT INTO t VALUES (1)" ∧
        c.result.isOk = true) ∧
      rows s.shared.engine.engine = some 1 ∧ ¬ Isolated .plain s.shared.engine.calls := by
  obtain ⟨s, hrun, hsummary⟩ := map_eq_some_iff.mp swallowedMessages_run
  obtain ⟨hcalls, hrows⟩ := Prod.mk.inj hsummary
  obtain ⟨a, rest, hlist, ha, hrest⟩ := map_eq_cons_iff.mp hcalls
  obtain ⟨c, rest', rfl, hc, -⟩ := map_eq_cons_iff.mp hrest
  simp only [Call.summary, Summary.mk.injEq] at ha hc
  obtain ⟨hcaller, hsql, hok, hafter, halone⟩ := hc
  refine ⟨s, hrun, ⟨c, by simp [hlist], hcaller, hsql, hok⟩, hrows, fun hisolated => ?_⟩
  have hroute : outerRoute EngineConfig.plain.host c.sql = .inner := by
    rw [hsql]
    decide +kernel
  have hown : ¬ InOwn [a] c := not_inOwn_of_ne (by rw [ha.1, hcaller]; decide)
  obtain ⟨u, r, hu, hsame⟩ := (hisolated [a] c rest' hlist).statement (by rw [hroute]; decide) hown
  rw [hu] at halone
  have htwo : rows u = some 2 := Option.some.inj halone
  rw [rows, hsame] at hafter
  exact absurd (hafter.symm.trans htwo) (by decide)

end TensorVault.Server
