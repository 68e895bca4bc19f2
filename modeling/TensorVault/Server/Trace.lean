import TensorVault.Server.Startup

/-!
# What all handlers respect

A relation between worlds that the primitive steps respect is respected by whole handlers: `Frame`
is for the handlers that neither execute a statement nor change a user, `ActingFrame` for all of
them.
-/

namespace TensorVault.Server

open Text Proc List

/-- The events that authentication is required for. -/
def Event.acts : Event → Bool
  | .passed _ => true
  | .userChanged _ => true
  | _ => false

section Frames

variable {σ δ : Type} {R : World σ → World σ → Prop}

/-! ## Handlers that only send -/

/-- A property of handlers that survives the steps that send messages or set up the session. -/
structure Closed (P : (α : Type) → Handler σ α → Prop) : Prop where
  pure : ∀ {α : Type} (a : α), P α (pure a)
  get : P (World σ) Proc.get
  stop : ∀ {α : Type} {e : Stop}, e ≠ .panicked → P α (Proc.stop e)
  bind : ∀ {α β : Type} {x : Handler σ α} {f : α → Handler σ β},
    P α x → (∀ a, P β (f a)) → P β (x >>= f)
  send : ∀ m, P Unit (send m)
  setSession : ∀ f, P Unit (setSession f)
  setStatements : ∀ f, P Unit (setStatements f)

namespace Closed

variable {P : (α : Type) → Handler σ α → Prop} (h : Closed P)

include h

variable {code msg : String} {buf : List UInt8} {qr : QueryResult}

theorem sendError : P Unit (sendError code msg) := h.send _

theorem setTxn {txn : TxnStatus} : P Unit (setTxn txn) := h.setSession _

theorem decodeBody {α : Type} {x : Decoder α} : P α (decodeBody x buf) := by
  unfold Server.decodeBody
  split
  · exact h.pure _
  · exact h.stop (by simp)

theorem failTxn {wasTxn : Bool} : P Unit (failTxn wasTxn) := by
  unfold Server.failTxn
  split
  · exact h.setTxn
  · exact h.pure ()

theorem handleClose (hportals : ∀ name, P Unit (setPortals (setEntry name none))) :
    P Unit (handleClose buf) := by
  unfold Server.handleClose
  split
  · split
    · exact h.setStatements _
    · split
      · exact hportals _
      · exact h.pure ()
  · exact h.pure ()

theorem sendReadyForQuery : P Unit sendReadyForQuery := h.bind h.get fun _ => h.send _

theorem sendRowDescription : P Unit (sendRowDescription qr) := by
  unfold Server.sendRowDescription
  split <;> exact h.send _

theorem sendDataRows {H : Host} : P Unit (sendDataRows H qr) := by
  unfold Server.sendDataRows
  induction List.range qr.rowCount with
  | nil => exact h.pure ()
  | cons row rows ih => exact h.bind (h.send _) fun _ => ih

theorem handleParse : P Unit (handleParse buf) :=
  h.bind h.decodeBody fun _ => h.bind (h.setStatements _) fun _ => h.send _

theorem handleDescribe : P Unit (handleDescribe buf) := by
  refine h.bind h.decodeBody fun _ => h.bind h.get fun w => ?_
  split
  · split
    · exact h.sendError
    · exact h.bind (h.send _) fun _ => h.send _
  · split
    · split
      · exact h.sendError
      · split
        · exact h.sendError
        · exact h.send _
    · exact h.sendError

theorem reject {e : IoError} : P Unit (reject code msg e) :=
  h.bind h.sendError fun _ => h.stop (by simp)

theorem sendAuthOkAndParams : P Unit sendAuthOkAndParams := by
  have hall : ∀ ms, P Unit (sendAll ms) := by
    intro ms
    induction ms with
    | nil => exact h.pure ()
    | cons m ms ih => exact h.bind (h.send m) fun _ => ih
  exact h.bind (h.send _) fun _ => h.bind (hall _) fun _ => h.bind (h.send _) fun _ =>
    h.sendReadyForQuery

/-- The exchange looks up a user and a nonce, and notes that it was accepted. -/
theorem scramAuth [DecidableEq δ] (S : Services σ δ)
    (hcall : ∀ {α : Type} (f : σ → σ × α), P α (call f))
    (hverified : ∀ username, P Unit (record (.verified username)))
    {readInitial : Handler σ (Option (String × List UInt8))} {readFinal : Handler σ (List UInt8)}
    (hinitial : P _ readInitial) (hfinal : P _ readFinal) :
    P Unit (scramAuth S readInitial readFinal) := by
  refine h.bind (h.send _) fun _ => h.bind hinitial fun init => ?_
  split
  · exact h.reject
  split
  · unfold answerClientFirst
    simp only
    split
    · exact h.reject
    · refine h.bind (hcall _) fun cred => ?_
      split
      · exact h.reject
      · refine h.bind (hcall _) fun nonce => h.bind (h.send _) fun _ =>
          h.bind hfinal fun final => ?_
        split
        · exact h.reject
        split
        · exact h.bind (hverified _) fun _ => h.bind (h.send _) fun _ => h.sendAuthOkAndParams
        · exact h.reject
  · exact h.reject

end Closed

/-- A relation that is respected by whatever leaves the shared state alone and sends messages. -/
structure Frame (R : World σ → World σ → Prop) : Prop where
  refl : ∀ w, R w w
  trans : ∀ a b c, R a b → R b c → R a c
  conn : ∀ (w : World σ) conn, R w { w with conn }
  input : ∀ (w : World σ) input, R w { w with input }
  sent : ∀ (w : World σ) m, R w { w with log := w.log ++ [.sent m] }

section Silent

variable {α : Type} (h : Frame R)

include h

theorem Frame.keeps_stop {e : Stop} : Keeps R (Proc.stop e : Handler σ α) :=
  Keeps.stop h.refl

theorem Frame.closed : Closed (fun _ => Keeps R) where
  pure := Keeps.pure h.refl
  get := Keeps.get h.refl
  stop _ := h.keeps_stop
  bind := Keeps.bind h.trans
  send m := Keeps.modify fun w => h.sent w m
  setSession _ := Keeps.modify fun w => h.conn w _
  setStatements _ := Keeps.modify fun w => h.conn w _

theorem Frame.keeps_setPortals {f : (String → Option Portal) → String → Option Portal} :
    Keeps R (setPortals f : Handler σ Unit) := Keeps.modify fun w => h.conn w _

theorem Frame.keeps_receive {x : Reader α} : Keeps R (receive x : Handler σ α) :=
  fun w => h.input w _

theorem Frame.keeps_orPanic {a : Option α} : Keeps R (orPanic a : Handler σ α) := by
  cases a with
  | none => exact h.keeps_stop
  | some a => exact h.closed.pure a

theorem Frame.keeps_handleBind {buf : List UInt8} : Keeps R (handleBind buf : Handler σ Unit) := by
  refine h.closed.bind h.closed.decodeBody fun _ => h.closed.bind h.closed.get fun w => ?_
  split
  · exact h.closed.sendError
  · exact h.closed.bind h.keeps_setPortals fun _ => h.closed.send _

variable {H : Host} {portalName : String} {portal : Portal} {maxRows : Int}

theorem Frame.keeps_drainPortal {cached : CachedResult} :
    Keeps R (drainPortal H portalName portal cached maxRows : Handler σ Unit) := by
  refine h.closed.bind h.keeps_orPanic fun batch =>
    h.closed.bind h.closed.sendDataRows fun _ => ?_
  split <;> exact h.closed.bind (h.closed.send _) fun _ => h.keeps_setPortals

theorem Frame.keeps_answerExecute {sql : String} {r : Except Error QueryResult} :
    Keeps R (answerExecute H portalName portal sql maxRows r : Handler σ Unit) := by
  unfold answerExecute
  split
  · exact h.closed.sendError
  split
  · exact h.closed.bind h.keeps_orPanic fun batch =>
      h.closed.bind h.closed.sendDataRows fun _ =>
        h.closed.bind (h.closed.send _) fun _ => h.keeps_setPortals
  · exact h.closed.bind h.closed.sendDataRows fun _ => h.closed.send _

end Silent

/-! ## Handlers that execute statements -/

/-- A relation that the calls of a connection respect too. -/
structure ActingFrame (S : Services σ δ) (R : World σ → World σ → Prop) : Prop
    extends Frame R where
  passed : ∀ (w : World σ) sql, R w { w with log := w.log ++ [.passed sql] }
  userChanged : ∀ (w : World σ) username, R w { w with log := w.log ++ [.userChanged username] }
  createUser : ∀ (w : World σ) username password,
    R w { w with shared := S.createUser w.shared username password }
  dropUser : ∀ (w : World σ) username, R w { w with shared := (S.dropUser w.shared username).1 }
  tryReadonlySelect : ∀ (w : World σ) sql shared r,
    S.tryReadonlySelect w.shared sql = some (shared, r) → R w { w with shared }
  execute : ∀ (w : World σ) sql shared r,
    S.execute w.shared sql = some (shared, r) → R w { w with shared }

section Acting

variable {S : Services σ δ} (h : ActingFrame S R)

include h

theorem ActingFrame.keeps_callPanic {α : Type} {f : σ → Option (σ × α)}
    (hf : ∀ (w : World σ) shared a, f w.shared = some (shared, a) → R w { w with shared }) :
    Keeps R (callPanic f : Handler σ α) := by
  intro w
  unfold callPanic
  split
  · next shared a heq => exact hf w shared a heq
  · exact h.refl w

variable {sql : String}

theorem ActingFrame.keeps_tryHandleUserDdl :
    Keeps R (tryHandleUserDdl S sql : Handler σ (Option (Except String String))) := by
  unfold tryHandleUserDdl
  split
  · exact h.closed.pure _
  · exact h.keeps_stop
  · exact h.closed.pure _
  · exact h.closed.bind (fun w => h.createUser w _ _) fun _ =>
      h.closed.bind (fun w => h.userChanged w _) fun _ => h.closed.pure _
  · refine h.closed.bind (fun w => h.dropUser w _) fun existed => ?_
    split
    · exact h.closed.bind (fun w => h.userChanged w _) fun _ => h.closed.pure _
    · split <;> exact h.closed.pure _

theorem ActingFrame.keeps_runSql :
    Keeps R (runSql S sql : Handler σ (Except Error QueryResult)) := by
  refine h.closed.bind (fun w => h.passed w sql) fun _ =>
    h.closed.bind (h.keeps_callPanic fun w => h.tryReadonlySelect w sql) fun r => ?_
  split
  · exact h.closed.pure _
  · exact h.keeps_callPanic fun w => h.execute w sql

theorem ActingFrame.keeps_runStatements {wasTxn : Bool} {stmts : List String} :
    Keeps R (runStatements S wasTxn stmts : Handler σ Unit) := by
  induction stmts with
  | nil => exact h.closed.pure ()
  | cons stmt rest ih =>
    have hcomplete : ∀ tag, Keeps R
        (send (.commandComplete tag) >>= fun _ => runStatements S wasTxn rest) :=
      fun tag => h.closed.bind (h.closed.send _) fun _ => ih
    have hfail : ∀ msg, Keeps R
        (sendError "42000" msg >>= fun _ => failTxn wasTxn : Handler σ Unit) :=
      fun msg => h.closed.bind h.closed.sendError fun _ => h.closed.failTxn
    unfold runStatements
    simp only
    split
    · exact ih
    split
    · exact h.closed.bind h.closed.setTxn fun _ => hcomplete _
    split
    · exact h.closed.bind h.closed.setTxn fun _ => hcomplete _
    split
    · exact h.closed.bind h.closed.setTxn fun _ => hcomplete _
    refine h.closed.bind h.keeps_tryHandleUserDdl fun outcome => ?_
    split
    · exact hcomplete _
    · exact hfail _
    · refine h.closed.bind h.keeps_runSql fun r => ?_
      split
      · exact h.closed.bind h.closed.sendRowDescription fun _ =>
          h.closed.bind h.closed.sendDataRows fun _ => hcomplete _
      · exact hfail _

theorem ActingFrame.keeps_executePortal {portalName : String} {portal : Portal}
    {stmt : PreparedStatement} {maxRows : Int} :
    Keeps R (executePortal S portalName portal stmt maxRows : Handler σ Unit) := by
  refine h.closed.bind h.keeps_orPanic fun sql => h.closed.bind h.keeps_tryHandleUserDdl
    fun outcome => ?_
  split
  · exact h.closed.send _
  · exact h.closed.sendError
  · exact h.closed.bind h.keeps_runSql fun r => h.keeps_answerExecute

theorem ActingFrame.keeps_handleExecute {buf : List UInt8} :
    Keeps R (handleExecute S buf : Handler σ Unit) := by
  refine h.closed.bind h.closed.decodeBody fun _ => h.closed.bind h.closed.get fun w => ?_
  split
  · exact h.closed.sendError
  · split
    · exact h.keeps_drainPortal
    · split
      · exact h.closed.sendError
      · exact h.keeps_executePortal

/-- **Messages.** What the primitive steps respect is respected by a whole message. -/
theorem ActingFrame.keeps_handleMessage (m : Message) :
    Keeps R (handleMessage S m : Handler σ Unit) := by
  unfold handleMessage
  split
  · split
    · exact h.closed.bind h.closed.get fun _ =>
        h.closed.bind h.keeps_runStatements fun _ => h.closed.sendReadyForQuery
    · exact h.keeps_stop
  split
  · exact h.closed.handleParse
  split
  · exact h.keeps_handleBind
  split
  · exact h.closed.handleDescribe
  split
  · exact h.keeps_handleExecute
  split
  · exact h.closed.sendReadyForQuery
  split
  · exact h.closed.bind (h.closed.handleClose (fun _ => h.keeps_setPortals)) fun _ =>
      h.closed.send _
  split
  · exact h.closed.pure ()
  split
  · exact h.keeps_stop
  · exact h.closed.sendError

theorem ActingFrame.keeps_handleMessages (ms : List Message) :
    Keeps R (handleMessages S ms : Handler σ Unit) := by
  induction ms with
  | nil => exact h.closed.pure ()
  | cons m ms ih => exact h.closed.bind (h.keeps_handleMessage m) fun _ => ih

end Acting

end Frames

/-! ## What is added to the log -/

section

variable {σ δ : Type} {p : Event → Prop} {w w' : World σ} {ev : Event}

def Adds (p : Event → Prop) (w w' : World σ) : Prop :=
  ∃ added, w'.log = w.log ++ added ∧ ∀ ev ∈ added, p ev

theorem Adds.refl (w : World σ) : Adds p w w := ⟨[], by simp, fun _ h => by cases h⟩

theorem Adds.trans (a b c : World σ) (hab : Adds p a b) (hbc : Adds p b c) : Adds p a c := by
  obtain ⟨xs, hxs, hp⟩ := hab
  obtain ⟨ys, hys, hq⟩ := hbc
  refine ⟨xs ++ ys, by rw [hys, hxs, append_assoc], fun ev hev => ?_⟩
  rcases mem_append.mp hev with h | h
  · exact hp ev h
  · exact hq ev h

theorem Adds.of_log_eq (h : w'.log = w.log) : Adds p w w' :=
  ⟨[], by simp [h], fun _ h => by cases h⟩

theorem Adds.concat (h : p ev) (w : World σ) :
    Adds p w { w with log := w.log ++ [ev] } := ⟨[ev], rfl, by simpa using h⟩

theorem adds_record (h : p ev) : Keeps (Adds p) (record ev : Handler σ Unit) :=
  Keeps.modify (Adds.concat h)

theorem adds_call {α : Type} (f : σ → σ × α) : Keeps (Adds p) (call f : Handler σ α) :=
  fun _ => .of_log_eq rfl

theorem Adds.frame (hsent : ∀ m, p (.sent m)) : Frame (Adds p : World σ → World σ → Prop) where
  refl := Adds.refl
  trans := Adds.trans
  conn _ _ := .of_log_eq rfl
  input _ _ := .of_log_eq rfl
  sent w m := Adds.concat (hsent m) w

/-- The answer of the engine adds nothing. -/
theorem adds_askEngine {S : Services σ δ} {sql : String} :
    Keeps (Adds p) (askEngine S sql : Handler σ (Except Error QueryResult)) := by
  have hcall : ∀ f : σ → Option (σ × Except Error QueryResult),
      Keeps (Adds p) (callPanic f : Handler σ (Except Error QueryResult)) := by
    intro f w
    unfold callPanic
    split <;> exact .of_log_eq rfl
  refine Keeps.bind Adds.trans (hcall _) fun r => ?_
  split
  · exact Keeps.pure Adds.refl _
  · exact hcall _

theorem Adds.actingFrame (S : Services σ δ) (hsent : ∀ m, p (.sent m))
    (hpassed : ∀ sql, p (.passed sql)) (huser : ∀ username, p (.userChanged username)) :
    ActingFrame S (Adds p) where
  toFrame := Adds.frame hsent
  passed w sql := Adds.concat (hpassed sql) w
  userChanged w username := Adds.concat (huser username) w
  createUser _ _ _ := .of_log_eq rfl
  dropUser _ _ := .of_log_eq rfl
  tryReadonlySelect _ _ _ _ _ := .of_log_eq rfl
  execute _ _ _ _ _ := .of_log_eq rfl

end

end TensorVault.Server
