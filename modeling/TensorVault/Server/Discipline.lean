import TensorVault.Server.Gate
import TensorVault.Lib.Run

/-!
# Errors in a pipeline

A client relies on the server to skip everything between an error and the next Sync. `run_loop` goes
on with the next message, and an Execute runs whatever portal the name stands for, also one that was
bound before a Bind of the same name failed. `pipeline_disciplined` is about patient clients.
-/

namespace TensorVault.Server

open Proc Run List

/-- An ErrorResponse without a ReadyForQuery behind it. -/
def pendingError (log : List Event) : Bool :=
  log.foldl (fun pending ev =>
    match ev with
    | .sent (.errorResponse _ _) => true
    | .sent (.readyForQuery _) => false
    | _ => pending) false

/-- No statement is executed while an error is pending. -/
def Disciplined (log : List Event) : Prop :=
  ∀ pre ev rest, log = pre ++ ev :: rest → ev.acts = true → pendingError pre = false

/-- Parse, Bind, Describe, Execute, Close, Flush and Sync. -/
def extendedTags : List UInt8 := [0x50, 0x42, 0x44, 0x45, 0x43, 0x48, 0x53]

section Discipline

variable {σ δ : Type} {w : World σ} (S : Services σ δ)

/-- One message of a connection that goes on. -/
def messageStep (S : Services σ δ) (w : World σ) (m : Message) : Option (World σ) :=
  match handleMessage S m w with
  | (.ok _, w') => some w'
  | (.error _, _) => none

/-- An Execute that is not answered from rows that are left or with an error: the portal and its
statement are there. -/
def Runnable (conn : PgConn) (m : Message) : Prop :=
  m.tag = 0x45 ∧ ∃ name maxRows portal stmt, (decodeExecute m.body).1 = .ok (name, maxRows) ∧
    conn.portals name = some portal ∧ portal.cachedResult = none ∧
    conn.statements portal.stmtName = some stmt

/-- The client sends no Execute for a portal while an error is pending. -/
def Patient (w : World σ) (m : Message) : Prop :=
  pendingError w.log = true → ¬ Runnable w.conn m

/-! ## Logs -/

theorem Disciplined.append {log added : List Event} (h : Disciplined log)
    (hadded : ∀ ev ∈ added, ev.NotActing) : Disciplined (log ++ added) := by
  intro pre ev rest heq hacts
  rcases append_eq_append_iff.mp heq with ⟨more, -, hrest⟩ | ⟨more, hlog, hrest⟩
  · have hev : ev.acts = false := hadded ev (by simp [hrest])
    cases hev.symm.trans hacts
  · cases more with
    | nil =>
      have hev : ev.acts = false := hadded ev ((nil_append added ▸ hrest) ▸ mem_cons_self)
      cases hev.symm.trans hacts
    | cons x more =>
      rw [cons_append] at hrest
      cases hrest
      exact h pre ev more hlog hacts

/-- One statement while no error is pending. -/
theorem Disciplined.concat {log : List Event} (h : Disciplined log) {ev : Event}
    (hpending : pendingError log = false) : Disciplined (log ++ [ev]) := by
  intro pre ev' rest heq hacts
  rcases append_eq_append_iff.mp heq with ⟨more, hpre, hrest⟩ | ⟨more, hlog, hrest⟩
  · cases more with
    | nil => rwa [hpre, append_nil]
    | cons x more => simp at hrest
  · cases more with
    | nil => rwa [← append_nil pre, ← hlog]
    | cons x more =>
      rw [cons_append] at hrest
      cases hrest
      exact h pre ev' more hlog hacts

/-! ## One message -/

/-- An event and then none that acts. -/
def ActsFirst (w w' : World σ) : Prop :=
  Adds Event.NotActing w w' ∨
    ∃ ev, Adds Event.NotActing { w with log := w.log ++ [ev] } w'

theorem ActsFirst.disciplined {w w' : World σ} (h : ActsFirst w w') (hlog : Disciplined w.log)
    (hpending : pendingError w.log = false) : Disciplined w'.log := by
  rcases h with ⟨added, hw', hadded⟩ | ⟨ev, added, hw', hadded⟩
  · exact hw' ▸ hlog.append hadded
  · exact hw' ▸ (hlog.concat hpending).append hadded

theorem ActsFirst.refl : ActsFirst w w := .inl (Adds.refl w)

/-- What follows does not act. -/
theorem ActsFirst.then_adds {w u v : World σ} (h : ActsFirst w u)
    (hadds : Adds Event.NotActing u v) : ActsFirst w v := by
  rcases h with h | ⟨ev, h⟩
  · exact .inl (h.trans _ _ _ hadds)
  · exact .inr ⟨ev, h.trans _ _ _ hadds⟩

/-- A text that is no user statement leaves everything as it is. -/
theorem tryHandleUserDdl_spec {sql : String} :
    wp (tryHandleUserDdl S sql)
      (fun r w' => (r = none ∧ w' = w) ∨ (r.isSome = true ∧ ActsFirst w w')) (fun _ w' => w' = w)
      w := by
  have hchanged : ∀ (shared : σ) (username : String),
      ActsFirst w { w with shared, log := w.log ++ [.userChanged username] } :=
    fun shared username => .inr ⟨.userChanged username, .of_log_eq rfl⟩
  unfold tryHandleUserDdl
  split
  · exact wp_pure |>.mpr (.inl ⟨rfl, rfl⟩)
  · exact wp_stop |>.mpr rfl
  · exact wp_pure |>.mpr (.inr ⟨rfl, .refl⟩)
  · simp only [wp_bind, wp_call, record, wp_modify, wp_pure]
    exact .inr ⟨rfl, hchanged _ _⟩
  · rw [wp_bind, wp_call]
    split
    · simp only [wp_bind, record, wp_modify, wp_pure]
      exact .inr ⟨rfl, hchanged _ _⟩
    · split <;> exact wp_pure |>.mpr (.inr ⟨rfl, .inl (.of_log_eq rfl)⟩)

theorem executePortal_actsFirst {name : String} {portal : Portal} {stmt : PreparedStatement}
    {maxRows : Int} :
    wp (executePortal S name portal stmt maxRows) (fun _ => ActsFirst w) (fun _ => ActsFirst w)
      w := by
  unfold executePortal
  rw [wp_bind]
  cases substituteParams S.overflowChecks stmt.sql portal.params with
  | none => exact wp_stop |>.mpr (.refl)
  | some sql =>
    simp only [orPanic, wp_pure]
    rw [wp_bind]
    refine wp_mono (tryHandleUserDdl_spec S) (fun r w₁ h => ?_) fun _ w₁ h => h ▸ .refl
    rcases h with ⟨rfl, rfl⟩ | ⟨hr, hfirst⟩
    · -- The statement is logged first; what follows are answers.
      have hadds : Keeps (Adds Event.NotActing) (do
          let r ← askEngine S sql
          answerExecute S.host name portal sql maxRows r) :=
        silent.closed.bind adds_askEngine fun r => silent.keeps_answerExecute
      simp only [runSql, wp_bind, record, wp_modify]
      rw [← wp_bind]
      exact wp_mono (hadds.wp _) (fun _ _ h => .inr ⟨_, h⟩) fun _ _ h => .inr ⟨_, h⟩
    · rcases r with - | (msg | tag)
      · cases hr
      · exact wp_mono (silent.closed.sendError.wp w₁) (fun _ _ h => hfirst.then_adds h)
          fun _ _ h => hfirst.then_adds h
      · exact wp_mono ((silent.closed.send _).wp w₁) (fun _ _ h => hfirst.then_adds h)
          fun _ _ h => hfirst.then_adds h

/-- An Execute acts at most once, and first; one that is not runnable does not act. -/
theorem handleExecute_spec {buf : List UInt8} :
    ActsFirst w (handleExecute S buf w).2 ∧
      (¬ Runnable w.conn ⟨0x45, buf⟩ → Adds Event.NotActing w (handleExecute S buf w).2) := by
  refine (wp_state (P := fun w' => ActsFirst w w' ∧
    (¬ Runnable w.conn ⟨0x45, buf⟩ → Adds Event.NotActing w w'))).mp ?_
  have hsilent : ∀ {x : Handler σ Unit}, Keeps (Adds Event.NotActing) x →
      wp x (fun _ w' => ActsFirst w w' ∧
          (¬ Runnable w.conn ⟨0x45, buf⟩ → Adds Event.NotActing w w'))
        (fun _ w' => ActsFirst w w' ∧
          (¬ Runnable w.conn ⟨0x45, buf⟩ → Adds Event.NotActing w w')) w :=
    fun hx => wp_mono (hx.wp w) (fun _ _ h => ⟨.inl h, fun _ => h⟩) fun _ _ h =>
      ⟨.inl h, fun _ => h⟩
  unfold handleExecute
  rw [wp_bind]
  unfold decodeBody
  cases hbody : (decodeExecute buf).1 with
  | error e => exact wp_stop |>.mpr ⟨.refl, fun _ => .refl w⟩
  | ok target =>
    obtain ⟨name, maxRows⟩ := target
    rw [wp_pure, wp_bind, wp_get]
    split
    · exact hsilent silent.closed.sendError
    · next portal hportal =>
      split
      · exact hsilent silent.keeps_drainPortal
      · next hcached =>
        split
        · exact hsilent silent.closed.sendError
        · next stmt hstmt =>
          have hrunnable : Runnable w.conn ⟨0x45, buf⟩ :=
            ⟨rfl, name, maxRows, portal, stmt, hbody, hportal, hcached, hstmt⟩
          exact wp_mono (executePortal_actsFirst S)
            (fun _ _ h => ⟨h, fun hnot => absurd hrunnable hnot⟩)
            fun _ _ h => ⟨h, fun hnot => absurd hrunnable hnot⟩

/-- One message of the extended protocol. -/
theorem handleMessage_disciplined {m : Message} (hm : m.tag ∈ extendedTags)
    (hpatient : Patient w m) (hlog : Disciplined w.log) :
    Disciplined (handleMessage S m w).2.log := by
  have hsilent : ∀ {x : Handler σ Unit}, Keeps (Adds Event.NotActing) x →
      Disciplined (x w).2.log := by
    intro x hx
    obtain ⟨added, hw', hadded⟩ := hx w
    exact hw' ▸ hlog.append hadded
  obtain ⟨tag, body⟩ := m
  simp only [extendedTags, mem_cons, not_mem_nil, or_false] at hm
  rcases hm with rfl | rfl | rfl | rfl | rfl | rfl | rfl
  · exact hsilent silent.closed.handleParse
  · exact hsilent silent.keeps_handleBind
  · exact hsilent silent.closed.handleDescribe
  · obtain ⟨hfirst, hidle⟩ := handleExecute_spec S
    cases hpending : pendingError w.log with
    | false => exact hfirst.disciplined hlog hpending
    | true =>
      obtain ⟨added, hw', hadded⟩ := hidle (hpatient hpending)
      exact hw' ▸ hlog.append hadded
  · exact hsilent
      (silent.closed.bind (silent.closed.handleClose (fun _ => silent.keeps_setPortals)) fun _ =>
        silent.closed.send _)
  · exact hsilent (silent.closed.pure ())
  · exact hsilent silent.closed.sendReadyForQuery

/-- **Errors in a pipeline.** As long as the client sends no Execute for a portal between an error
and the next Sync, no statement is executed there. -/
theorem pipeline_disciplined (ms : List Message) (hms : ∀ m ∈ ms, m.tag ∈ extendedTags)
    (w : World σ) (hlog : Disciplined w.log) (hpatient : Along (messageStep S) Patient w ms) :
    Disciplined (handleMessages S ms w).2.log := by
  induction ms generalizing w with
  | nil => exact hlog
  | cons m ms ih =>
    have hone := handleMessage_disciplined S (hms m mem_cons_self) hpatient.1 hlog
    have hrest := hpatient.2
    unfold messageStep at hrest
    change Disciplined ((handleMessage S m >>= fun _ => handleMessages S ms) w).2.log
    refine (wp_state (P := fun w' : World σ => Disciplined w'.log)).mp ?_
    rw [wp_bind]
    refine wp_of_forall (fun _ w' hrun => ?_) fun _ w' hrun => ?_
    · rw [hrun] at hone hrest
      exact wp_state.mpr (ih (forall_mem_cons.mp hms).2 w' hone (hrest w' rfl))
    · rw [hrun] at hone
      exact hone

end Discipline

/-! ## Pipelines -/

/-- Parse of `SELECT 1` under the name `s`. -/
def parseSelect : Message :=
  ⟨0x50, [0x73, 0, 0x53, 0x45, 0x4C, 0x45, 0x43, 0x54, 0x20, 0x31, 0, 0, 0]⟩

/-- Bind of the portal `p` to the statement with the given name. -/
def bindPortal (stmt : UInt8) : Message := ⟨0x42, [0x70, 0, stmt, 0, 0, 0, 0, 0, 0, 0]⟩

/-- Execute of the portal `p`. -/
def executeMessage : Message := ⟨0x45, [0x70, 0, 0, 0, 0, 0]⟩

def syncMessage : Message := ⟨0x53, []⟩

def freshWorld : World Unit := .start () []

/-- A Bind that fails, and a Sync. -/
def boundPipeline : List Message := [parseSelect, bindPortal 0x73, bindPortal 0x74, syncMessage]

theorem disciplined_nil : Disciplined [] := by
  intro pre ev rest h
  simp at h

theorem patient_of_tag_ne {σ : Type} {m : Message} (h : m.tag ≠ 0x45) {w : World σ} :
    Patient w m := fun _ hrunnable => h hrunnable.1

theorem boundPipeline_pending : (run (messageStep (.bare false)) freshWorld boundPipeline).map
    (fun w => pendingError w.log) = some false := by
  decide +kernel

theorem syncedPipeline_disciplined : Disciplined
    (handleMessages (.bare false) (boundPipeline ++ [executeMessage]) freshWorld).2.log := by
  have htags : ∀ m ∈ boundPipeline, m.tag ≠ 0x45 := by decide
  refine pipeline_disciplined (.bare false) _ (by decide) freshWorld disciplined_nil
    (along_concat (fun m hm w => patient_of_tag_ne (htags m hm)) fun w hw hpending => ?_)
  have hnone := boundPipeline_pending
  rw [hw, Option.map_some, hpending] at hnone
  cases hnone

/-- Without the Sync the portal that was bound before is executed. -/
theorem failedBind_executes :
    ¬ Disciplined (handleMessages (.bare false)
      [parseSelect, bindPortal 0x73, bindPortal 0x74, executeMessage] freshWorld).2.log := by
  have hlog : (handleMessages (.bare false)
      [parseSelect, bindPortal 0x73, bindPortal 0x74, executeMessage] freshWorld).2.log =
      [.sent .parseComplete, .sent .bindComplete,
        .sent (.errorResponse "26000" "prepared statement \"t\" does not exist")] ++
        .passed "SELECT 1" :: [.sent (.commandComplete "SELECT 0")] := by decide +kernel
  intro h
  exact absurd (h _ _ _ hlog rfl) (by decide)

end TensorVault.Server
