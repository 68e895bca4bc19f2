import TensorVault.Engine.Effect
import TensorVault.Engine.Routing

/-!
# Savepoints

The engine keeps savepoints in a list of names and catalogs, the oldest first, and looks names up
from the end. Inside a transaction this is a stack of snapshots (`Snapshots`): `savepoint_law`
follows both through sequences of data-changing statements and savepoint commands. A command has to
be written with single blanks (`Written`), since `ROLLBACK  TO s` is taken for a ROLLBACK, and a
procedure must not control transactions, since a COMMIT in its body drops the savepoints around the
call.
-/

namespace TensorVault

open Text List

/-! ## Stacks of named snapshots -/

/-- What a savepoint command asks for. -/
inductive SavepointCommand where
  | savepoint (name : String)
  | rollbackTo (name : String)
  | release (name : String)
  deriving DecidableEq, Repr

namespace SavepointCommand

def keyword : SavepointCommand → String
  | .savepoint _ => "savepoint "
  | .rollbackTo _ => "rollback to "
  | .release _ => "release "

def name : SavepointCommand → String
  | .savepoint name | .rollbackTo name | .release name => name

def route : SavepointCommand → InnerRoute
  | .savepoint name => .savepoint name
  | .rollbackTo name => .rollbackTo name
  | .release name => .release name

/-- The text is the command: its keyword in any case, with single blanks, and the name. -/
def Written (c : SavepointCommand) (sql : String) : Prop :=
  ∃ word rest, trimChars sql.toList = word ++ rest ∧ Ascii word ∧
    word.map Char.toLower = c.keyword.toList ∧ trimChars rest = c.name.toList

end SavepointCommand

/-- A state with the snapshots that are live, the most recent first. -/
structure Snapshots (τ : Type) where
  current : τ
  live : List (String × τ)

namespace Snapshots

variable {τ : Type}

/-- A command that succeeds; `newer` are the snapshots behind the most recent one of the name. -/
inductive Step : Snapshots τ → SavepointCommand → Snapshots τ → Prop
  | savepoint {t live name} : Step ⟨t, live⟩ (.savepoint name) ⟨t, (name, t) :: live⟩
  | rollbackTo {t newer name then_ older} (hnewer : ∀ p ∈ newer, p.1 ≠ name) :
    Step ⟨t, newer ++ (name, then_) :: older⟩ (.rollbackTo name) ⟨then_, (name, then_) :: older⟩
  | release {t newer name then_ older} (hnewer : ∀ p ∈ newer, p.1 ≠ name) :
    Step ⟨t, newer ++ (name, then_) :: older⟩ (.release name) ⟨t, older⟩

/-- The command names a snapshot that is not live. -/
def Unknown (s : Snapshots τ) : SavepointCommand → Prop
  | .savepoint _ => False
  | .rollbackTo name | .release name => ∀ p ∈ s.live, p.1 ≠ name

end Snapshots

/-! ## The savepoints of an engine -/

namespace QueryEngine

variable {H : Host} {F : Frontend} {n : Nat} {e e' : QueryEngine} {sql name : String}
  {r : Except Error QueryResult} {live : List (String × Catalog)}

theorem savepointPos_concat {live : List (String × Catalog)} {p : String × Catalog} :
    savepointPos { e with savepoints := live ++ [p] } name =
      if p.1 = name then some live.length
      else savepointPos { e with savepoints := live } name := by
  have hold : ∀ i ∈ List.range live.length,
      ((live ++ [p])[i]?).any (·.1 = name) = (live[i]?).any (·.1 = name) := fun i hi => by
    rw [getElem?_append_left (mem_range.mp hi)]
  simp only [savepointPos, length_append, length_singleton, range_succ,
    filter_append, filter_congr hold]
  split <;> simp [*]

/-- A name is looked up from the most recent savepoint on. -/
theorem savepoint_cases (hsave : e.savepoints = live.reverse)
    (name : String) : ((∀ p ∈ live, p.1 ≠ name) ∧ e.savepointPos name = none) ∨
      ∃ newer then_ older, live = newer ++ (name, then_) :: older ∧ (∀ p ∈ newer, p.1 ≠ name) ∧
        e.savepointPos name = some older.length := by
  have he : e = { e with savepoints := live.reverse } := by rw [← hsave]
  rw [he]
  clear he hsave
  induction live with
  | nil => exact .inl ⟨fun p hp => absurd hp not_mem_nil, rfl⟩
  | cons p live ih =>
    rw [reverse_cons, savepointPos_concat]
    by_cases hp : p.1 = name
    · obtain ⟨_, then_⟩ := p
      exact .inr ⟨[], then_, live, by rw [← hp]; rfl, by simp, by rw [if_pos hp, length_reverse]⟩
    · rw [if_neg hp]
      rcases ih with ⟨hnone, hpos⟩ | ⟨newer, then_, older, rfl, hnewer, hpos⟩
      · exact .inl ⟨forall_mem_cons.mpr ⟨hp, hnone⟩, hpos⟩
      · exact .inr ⟨p :: newer, then_, older, rfl, forall_mem_cons.mpr ⟨hp, hnewer⟩, hpos⟩

/-- A written command is routed as the command. -/
theorem routes_of_written (hcases : H.CasesAsciiStart) {c : SavepointCommand} (h : c.Written sql) :
    outerRoute H sql = .inner ∧ innerRoute H F sql = c.route := by
  obtain ⟨word, rest, htrim, hascii, hword, hname⟩ := h
  have hpre : c.keyword.toList <+: (H.toLowercase (trim sql)).toList := by
    rw [← hword, trim, htrim]
    exact hcases.lower word rest hascii
  have hstarts : startsWith (H.toLowercase (trim sql)) c.keyword = true :=
    List.isPrefixOf_iff_prefix.mpr hpre
  have hroute : ∀ {n}, c.keyword.toList.length = n → ∀ f, nameRoute n sql f = f c.name := by
    rintro _ rfl f
    have hlen : byteLength word = c.keyword.toList.length := by
      rw [byteLength_of_ascii hascii, ← hword, length_map]
    rw [nameRoute, restAfter, htrim, ← hlen, dropBytes_append]
    simp only [Option.map_some, trim, String.toList_ofList, hname, String.ofList_toList]
  -- a word that is no beginning of the keyword, nor the other way round, is not found
  have hdiffer : ∀ {other : String}, differ c.keyword.toList other.toList = true →
      startsWith (H.toLowercase (trim sql)) other = false := startsWith_of_differ hpre
  cases c with
  | savepoint name =>
    have hwords : ∀ word ∈ outerWords, differ "savepoint ".toList word.toList = true := by decide
    refine ⟨outerRoute_of_words
      (fun word hword => hdiffer (hwords word (mem_of_mem_dropLast hword)))
      ?_, (if_pos hstarts).trans (hroute (by decide : "savepoint ".toList.length = 10) _)⟩
    rw [hdiffer (hwords "rollback" (by decide)), Bool.false_and]
  | rollbackTo name =>
    have hwords : ∀ word ∈ "savepoint " :: outerWords.dropLast,
        differ "rollback to ".toList word.toList = true := by decide
    refine ⟨outerRoute_of_words (fun word hword => hdiffer (hwords word (mem_cons_of_mem _ hword)))
      ?_, ?_⟩
    · rw [show startsWith _ "rollback to " = true from hstarts, Bool.not_true, Bool.and_false]
    · rw [innerRoute, hdiffer (hwords "savepoint " (by decide)), if_neg Bool.false_ne_true]
      exact (if_pos hstarts).trans (hroute (by decide : "rollback to ".toList.length = 12) _)
  | release name =>
    have hwords : ∀ word ∈ "savepoint " :: "rollback to " :: outerWords,
        differ "release ".toList word.toList = true := by decide
    refine ⟨outerRoute_of_words (fun word hword => hdiffer (hwords word (mem_cons_of_mem _
      (mem_cons_of_mem _ (mem_of_mem_dropLast hword))))) ?_, ?_⟩
    · rw [hdiffer (hwords "rollback" (by decide)), Bool.false_and]
    · rw [innerRoute, hdiffer (hwords "savepoint " (by decide)),
        hdiffer (hwords "rollback to " (by decide)), if_neg Bool.false_ne_true,
        if_neg Bool.false_ne_true]
      exact (if_pos hstarts).trans (hroute (by decide : "release ".toList.length = 8) _)

def executeSavepointCommand (e : QueryEngine) : SavepointCommand → Reply
  | .savepoint name => e.executeSavepoint name
  | .rollbackTo name => e.executeRollbackTo name
  | .release name => e.executeReleaseSavepoint name

/-- A savepoint command on the tables of the engine. -/
theorem executeSavepointCommand_spec (hsave : e.savepoints = live.reverse) (c : SavepointCommand) :
    (∃ s', Snapshots.Step ⟨e.catalog, live⟩ c s' ∧ e.executeSavepointCommand c =
        reply { e with catalog := s'.current, savepoints := s'.live.reverse } .empty) ∨
      (Snapshots.Unknown ⟨e.catalog, live⟩ c ∧
        ∃ err, e.executeSavepointCommand c = e.fail err) := by
  cases c with
  | savepoint name =>
    refine .inl ⟨_, .savepoint, ?_⟩
    simp [executeSavepointCommand, executeSavepoint, hsave, Catalog.cloneCatalog]
  | rollbackTo name =>
    simp only [executeSavepointCommand, executeRollbackTo]
    rcases savepoint_cases hsave name with ⟨hnone, hpos⟩ | ⟨newer, then_, older, rfl, hnewer, hpos⟩
    · exact .inr ⟨hnone, _, by rw [hpos]⟩
    · refine .inl ⟨_, .rollbackTo hnewer, ?_⟩
      simp [hpos, hsave, take_append, take_of_length_le, Catalog.cloneCatalog]
  | release name =>
    simp only [executeSavepointCommand, executeReleaseSavepoint]
    rcases savepoint_cases hsave name with ⟨hnone, hpos⟩ | ⟨newer, then_, older, rfl, hnewer, hpos⟩
    · exact .inr ⟨hnone, _, by rw [hpos]⟩
    · refine .inl ⟨_, .release hnewer, ?_⟩
      simp [hpos, hsave]

/-- DDL, INSERT, UPDATE, DELETE and MERGE. -/
def changesData : Kind → Bool
  | .ddl _ _ | .dml _ | .merge _ => true
  | _ => false

def ChangesData (H : Host) (F : Frontend) (sql : String) : Prop :=
  outerRoute H sql = .inner ∧
    ∃ asOf kind, innerRoute H F sql = .statement asOf kind ∧ changesData kind = true

/-- The call of a procedure all of whose statements change data. -/
def CallsChanges (H : Host) (F : Frontend) (procedures : List ProcedureDef) (sql : String) : Prop :=
  outerRoute H sql = .inner ∧
    ∃ asOf name args, innerRoute H F sql = .statement asOf (.exec name args) ∧
    ∀ p, procedures.find? (·.name = name) = some p →
      ∀ piece ∈ bodyStatements (substituteProcParams p.body args), ChangesData H F piece

/-- Savepoints, procedures and transactions are left alone. -/
structure SameControl (e e' : QueryEngine) : Prop where
  savepoints : e'.savepoints = e.savepoints
  procedures : e'.procedures = e.procedures
  txnManager : e'.txnManager = e.txnManager

theorem SameControl.refl (e : QueryEngine) : SameControl e e := ⟨rfl, rfl, rfl⟩

theorem executeInner_changes {i : Option UInt64} {asOf : Option (String × UInt64)} {kind : Kind}
    (hroute : innerRoute H F sql = .statement asOf kind) (hkind : changesData kind = true)
    (h : executeInner H F n e sql i = some (e', r)) : SameControl e e' := by
  obtain ⟨exec, inner, hstep⟩ := executeInner_eq_step H F n
  rw [hstep, executeInnerStep, hroute] at h
  simp only at h
  split at h
  · cases h
    exact .refl e
  cases kind with
  | ddl d temporal =>
    simp only [executeKind, executeDdlStmt] at h
    split at h
    · cases h
      exact .refl e
    · cases h
    · next cat im _ =>
      split at h
      · next name =>
        obtain ⟨_, _, hframe⟩ := registerTemporal_frame H
          { e with catalog := cat, indexManager := im } name
        rw [hframe] at h
        cases h
        exact ⟨rfl, rfl, rfl⟩
      · cases h
        exact ⟨rfl, rfl, rfl⟩
      · cases h
  | dml d =>
    simp only [executeKind, executeDmlStmt] at h
    split at h
    · cases h
      exact .refl e
    · cases h
    · next cat _ _ =>
      obtain ⟨_, _, hframe⟩ := syncTemporal_frame H { e with catalog := cat } e.catalog d
      rw [hframe] at h
      cases h
      exact ⟨rfl, rfl, rfl⟩
  | merge m =>
    simp only [executeKind, executeMergeReply] at h
    split at h <;> cases h <;> exact ⟨rfl, rfl, rfl⟩
  | _ => cases hkind

/-- The statements of a body run outside a transaction. -/
theorem runBody_changes {exec : QueryEngine → String → Reply} {e e' : QueryEngine}
    {body : List String} (hexec : ∀ piece ∈ body, ∀ {u u' res}, u.txnManager.active = none →
      exec u piece = some (u', res) → SameControl u u') (hidle : e.txnManager.active = none)
    {last : QueryResult} (h : runBody exec body last e = some (e', r)) : SameControl e e' := by
  induction body generalizing e last with
  | nil =>
    cases h
    exact .refl _
  | cons piece body ih =>
    obtain ⟨hpiece, hrest⟩ := forall_mem_cons.mp hexec
    cases hx : exec e piece with
    | none => simp [runBody, hx, Reply.andThen] at h
    | some p =>
      obtain ⟨u, res⟩ := p
      have hu := hpiece hidle hx
      rw [runBody, hx] at h
      cases res with
      | error err =>
        cases h
        exact hu
      | ok qr =>
        have hrun := ih hrest (hu.txnManager ▸ hidle) h
        exact ⟨hrun.savepoints.trans hu.savepoints, hrun.procedures.trans hu.procedures,
          hrun.txnManager.trans hu.txnManager⟩

theorem executeInner_calls {i : Option UInt64} {asOf : Option (String × UInt64)}
    {args : List String}
    (h : executeInner H F n e sql i = some (e', r)) (hidle : e.txnManager.active = none)
    (hroute : innerRoute H F sql = .statement asOf (.exec name args))
    (hbody : ∀ p, e.procedures.find? (·.name = name) = some p →
      ∀ piece ∈ bodyStatements (substituteProcParams p.body args), ChangesData H F piece) :
    SameControl e e' := by
  have hexec : ∃ exec inner, executeInner H F n = executeInnerStep H F exec inner ∧
      ∀ piece, ChangesData H F piece → ∀ {u u' res}, u.txnManager.active = none →
        exec u piece = some (u', res) → SameControl u u' := by
    cases n with
    | zero => exact ⟨_, _, rfl, fun _ _ _ _ _ _ h => by cases h⟩
    | succ n =>
      refine ⟨_, _, rfl, fun piece hpiece u u' res hu hx => ?_⟩
      obtain ⟨houter, asOf, kind, hroute, hkind⟩ := hpiece
      exact executeInner_changes hroute hkind ((execute_plain houter hu).symm.trans hx)
  obtain ⟨exec, inner, hstep, hexec⟩ := hexec
  rw [hstep, executeInnerStep, hroute] at h
  simp only at h
  split at h
  · cases h
    exact .refl e
  · rw [executeKind, executeExec] at h
    split at h
    · cases h
      exact .refl e
    · next p hp =>
      exact runBody_changes (fun piece hin => hexec piece (hbody p hp piece hin)) hidle h

/-! ## Engine and stack -/

/-- The engine is in a transaction whose tables and savepoints are those of the stack. -/
def Holds (e : QueryEngine) (s : Snapshots Catalog) : Prop :=
  ∃ id, e.txnManager.active = some ⟨id, s.current⟩ ∧ e.savepoints = s.live.reverse

/-- A statement that changes data, of its own or through a procedure. -/
def Changes (H : Host) (F : Frontend) (procedures : List ProcedureDef) (sql : String) : Prop :=
  ChangesData H F sql ∨ CallsChanges H F procedures sql

/-- The engine does with the texts what the stack does. A command with an unknown name is an error
and leaves the engine as it is. -/
inductive Follows (H : Host) (F : Frontend) (n : Nat) :
    QueryEngine → Snapshots Catalog → List String → Prop
  | done {e s} (h : e.Holds s) : Follows H F n e s []
  | changed {e s sql texts} (h : e.Holds s) (hsql : Changes H F e.procedures sql)
    (hnext : ∀ e' r, execute H F n e sql = some (e', r) →
      Follows H F n e' { s with current := e'.workingCatalog } texts) :
    Follows H F n e s (sql :: texts)
  | obeyed {e s sql texts c s' e' qr} (h : e.Holds s) (hsql : c.Written sql)
    (hstep : s.Step c s') (hreply : execute H F n e sql = some (e', .ok qr))
    (hnext : Follows H F n e' s' texts) : Follows H F n e s (sql :: texts)
  | refused {e s sql texts c err} (h : e.Holds s) (hsql : c.Written sql)
    (hunknown : s.Unknown c) (hreply : execute H F n e sql = some (e, .error err))
    (hnext : Follows H F n e s texts) : Follows H F n e s (sql :: texts)

variable {s : Snapshots Catalog}

theorem Holds.change (h : e.Holds s) (hsql : Changes H F e.procedures sql)
    (hreply : execute H F n e sql = some (e', r)) :
    e'.Holds { s with current := e'.workingCatalog } ∧ e'.procedures = e.procedures := by
  obtain ⟨id, hactive, hsave⟩ := h
  have houter : outerRoute H sql = .inner := by
    rcases hsql with ⟨houter, -⟩ | ⟨houter, -⟩ <;> exact houter
  simp only [execute, executeStep, houter, executeRouted, hactive] at hreply
  split at hreply
  · cases hreply
  · next u res hu =>
    have hsame : u.savepoints = e.savepoints ∧ u.procedures = e.procedures := by
      rcases hsql with ⟨-, asOf, kind, hroute, hkind⟩ | ⟨-, asOf, name, args, hroute, hbody⟩
      · have h := executeInner_changes hroute hkind hu
        exact ⟨h.savepoints, h.procedures⟩
      · have h := executeInner_calls hu rfl hroute hbody
        exact ⟨h.savepoints, h.procedures⟩
    cases hreply
    exact ⟨⟨id, rfl, hsame.1.trans hsave⟩, hsame.2⟩

theorem Holds.command (hcases : H.CasesAsciiStart) {c : SavepointCommand} (h : e.Holds s)
    (hsql : c.Written sql) :
    (∃ s' e' qr, s.Step c s' ∧ execute H F n e sql = some (e', .ok qr) ∧ e'.Holds s' ∧
        e'.procedures = e.procedures) ∨
      (s.Unknown c ∧ ∃ err, execute H F n e sql = some (e, .error err)) := by
  obtain ⟨current, live⟩ := s
  obtain ⟨id, hactive, hsave⟩ := h
  obtain ⟨exec, inner, hinner⟩ := executeInner_eq_step H F n
  obtain ⟨houter, hroute⟩ := @routes_of_written H F sql hcases c hsql
  have hstep : ∀ u i, executeInnerStep H F exec inner u sql i = u.executeSavepointCommand c := by
    intro u i
    rw [executeInnerStep, hroute]
    cases c <;> rfl
  simp only [execute, executeStep, houter, executeRouted, hactive, hinner, hstep]
  rcases executeSavepointCommand_spec (e := { e with
      catalog := current, txnManager := { e.txnManager with active := none } }) hsave c with
    ⟨s', hs', hreply⟩ | ⟨hunknown, err, hreply⟩
  · rw [hreply]
    exact .inl ⟨s', _, _, hs', rfl, ⟨id, rfl, rfl⟩, rfl⟩
  · rw [hreply]
    refine .inr ⟨hunknown, err, ?_⟩
    simp only [fail, ← hactive]

/-- **Savepoints.** Inside a transaction the engine does what a stack of snapshots does, through any
sequence of data-changing statements, calls of procedures made of them, and savepoint commands
written with single blanks. -/
theorem savepoint_law (hcases : H.CasesAsciiStart) (F : Frontend) (n : Nat) {e : QueryEngine}
    {txn : Transaction} (hactive : e.txnManager.active = some txn) {texts : List String}
    (htexts : ∀ sql ∈ texts, Changes H F e.procedures sql ∨ ∃ c : SavepointCommand, c.Written sql) :
    Follows H F n e ⟨txn.snapshot, e.savepoints.reverse⟩ texts := by
  have hholds : e.Holds ⟨txn.snapshot, e.savepoints.reverse⟩ :=
    ⟨txn.id, hactive, reverse_reverse _ |>.symm⟩
  generalize (⟨txn.snapshot, e.savepoints.reverse⟩ : Snapshots Catalog) = s at hholds
  clear hactive
  -- the procedures stay those at the start
  generalize hprocs : e.procedures = procs at htexts
  induction texts generalizing e s with
  | nil => exact .done hholds
  | cons sql texts ih =>
    obtain ⟨hhead, htail⟩ := forall_mem_cons.mp htexts
    rcases hhead with hsql | ⟨c, hc⟩
    · rw [← hprocs] at hsql
      refine .changed hholds hsql fun e' r hreply => ?_
      obtain ⟨h', hprocs'⟩ := hholds.change hsql hreply
      exact ih _ h' (hprocs'.trans hprocs) htail
    · rcases hholds.command hcases hc with
        ⟨s', e', qr, hstep, hreply, h', hprocs'⟩ | ⟨hunknown, err, hreply⟩
      · exact .obeyed hholds hc hstep hreply (ih _ h' (hprocs'.trans hprocs) htail)
      · exact .refused hholds hc hunknown hreply (ih s hholds hprocs htail)

def inTxn : QueryEngine := { new with txnManager := ⟨2, some ⟨1, Catalog.empty⟩⟩ }

/-- Two savepoints of one name. -/
theorem savepoint_law_shadowed :
    Follows Host.ascii Frontend.closed 0 inTxn ⟨Catalog.empty, []⟩
      ["SAVEPOINT s", "CREATE TABLE t (a INT)", "SAVEPOINT s", "RELEASE s", "ROLLBACK TO s"] := by
  refine savepoint_law Host.casesAsciiStart_ascii Frontend.closed 0
    (show inTxn.txnManager.active = some ⟨1, Catalog.empty⟩ from rfl) fun sql hsql => ?_
  simp only [mem_cons, not_mem_nil, or_false] at hsql
  rcases hsql with rfl | rfl | rfl | rfl | rfl
  · exact .inr ⟨.savepoint "s", "SAVEPOINT ".toList, ['s'], by decide +kernel⟩
  · exact .inl (.inl ⟨by decide +kernel, none, _, rfl, rfl⟩)
  · exact .inr ⟨.savepoint "s", "SAVEPOINT ".toList, ['s'], by decide +kernel⟩
  · exact .inr ⟨.release "s", "RELEASE ".toList, ['s'], by decide +kernel⟩
  · exact .inr ⟨.rollbackTo "s", "ROLLBACK TO ".toList, ['s'], by decide +kernel⟩

/-- A procedure that opens and ends a transaction of its own. -/
def withProcedure : QueryEngine :=
  { inTxn with procedures := [⟨"p", "START TRANSACTION; COMMIT"⟩] }

/-- The transaction and the savepoints after two texts. -/
def controlAfter (F : Frontend) (e : QueryEngine) (first second : String) :
    Option (Bool × List String) :=
  (execute Host.ascii F 2 e first).bind fun p =>
    (execute Host.ascii F 2 p.1 second).map fun q =>
      (q.1.txnManager.active.isSome, q.1.savepoints.map Prod.fst)

/-- A second blank in ROLLBACK TO ends the transaction, and a COMMIT in a procedure drops the
savepoint in front of the call. -/
theorem blank_and_call_drop_savepoints :
    controlAfter .closed inTxn "SAVEPOINT s" "ROLLBACK TO s" = some (true, ["s"]) ∧
    controlAfter .closed inTxn "SAVEPOINT s" "ROLLBACK  TO s" = some (false, []) ∧
    controlAfter { Frontend.closed with execCall := fun _ => .ok ("p", []) } withProcedure
      "SAVEPOINT s" "EXEC p" = some (true, []) := by
  decide +kernel

end QueryEngine

end TensorVault
