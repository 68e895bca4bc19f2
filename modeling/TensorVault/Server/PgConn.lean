import TensorVault.Server.Auth

/-!
# One connection

A handler is a process on the connection, what it shares with the others, the input that is left,
and a log of what it did. All a connection sees of the engine and the password manager are the
answers to its calls, so `Services` has one function for each kind of call; what other connections
did since the last call is part of that function. Sending is taken to succeed.
-/

namespace TensorVault.Server

open Text

/-! ## State -/

/-- `TxnStatus`, as ReadyForQuery reports it. -/
inductive TxnStatus where
  | idle
  | inTransaction
  | failedTransaction
  deriving DecidableEq, Repr

/-- `Session`, with the fields that are written by the handlers. -/
structure Session where
  txn : TxnStatus
  user : Option String
  database : Option String
  applicationName : Option String
  deriving DecidableEq, Repr

def Session.new : Session :=
  { txn := .idle, user := none, database := none, applicationName := none }

structure PreparedStatement where
  sql : String
  paramOids : List Nat
  deriving DecidableEq, Repr

structure CachedResult where
  result : QueryResult
  tag : String
  deriving DecidableEq, Repr

structure Portal where
  stmtName : String
  params : List String
  resultFormats : List Int
  cachedResult : Option CachedResult
  cachedOffset : Nat
  deriving DecidableEq, Repr

/-- `Portal::new`. -/
def Portal.new (stmtName : String) (params : List String) (resultFormats : List Int) : Portal :=
  { stmtName, params, resultFormats, cachedResult := none, cachedOffset := 0 }

/-- `PgConn` without its stream. -/
structure PgConn where
  session : Session
  statements : String → Option PreparedStatement
  portals : String → Option Portal

def PgConn.new : PgConn :=
  { session := .new, statements := fun _ => none, portals := fun _ => none }

/-- The messages of the server. -/
inductive Backend where
  /-- The `N` that answers a request for TLS. -/
  | sslRefused
  | authenticationOk
  | authenticationSasl
  | authenticationSaslContinue (serverFirst : String)
  | authenticationSaslFinal (serverSignature : String)
  | parameterStatus (key value : String)
  | backendKeyData
  | readyForQuery (txn : TxnStatus)
  | rowDescription (columns : List (String × Nat × Int))
  | dataRow (cells : List (Option String))
  | commandComplete (tag : String)
  | noData
  | parameterDescription (oids : List Nat)
  | parseComplete
  | bindComplete
  | closeComplete
  | portalSuspended
  | errorResponse (code msg : String)
  deriving DecidableEq, Repr

inductive Event where
  | sent (m : Backend)
  /-- A statement was passed on to the engine. -/
  | passed (sql : String)
  /-- CREATE USER or DROP USER took effect. -/
  | userChanged (username : String)
  /-- `verify_scram` returned `Ok` for the named user. -/
  | verified (username : String)
  deriving DecidableEq, Repr

/-- What a connection works on. -/
structure World (σ : Type) where
  conn : PgConn
  shared : σ
  input : List UInt8
  log : List Event

/-- The configuration, and the calls that leave the connection. -/
structure Services (σ δ : Type) where
  host : Host
  authRequired : Bool
  /-- Whether the build has overflow checks. -/
  overflowChecks : Bool
  primitives : Scram.Primitives δ
  /-- `try_readonly_select` under the read lock; `none` is a panic. -/
  tryReadonlySelect : σ → String → Option (σ × Except Error QueryResult)
  /-- `QueryEngine::execute` under the write lock. -/
  execute : σ → String → Option (σ × Except Error QueryResult)
  /-- `PasswordManager::get`. -/
  getUser : σ → String → σ × Option (StoredCredential δ)
  /-- `PasswordManager::create_user`, with a random salt. -/
  createUser : σ → String → String → σ
  dropUser : σ → String → σ × Bool
  /-- `random_server_nonce`. -/
  serverNonce : σ → σ × ServerNonce

abbrev Handler (σ α : Type) : Type := Proc (World σ) Stop α

section Handlers

variable {σ δ : Type} (S : Services σ δ)

/-! ## Primitive steps -/

def record (ev : Event) : Handler σ Unit :=
  Proc.modify fun w => { w with log := w.log ++ [ev] }

def send (m : Backend) : Handler σ Unit := record (.sent m)

def sendError (code msg : String) : Handler σ Unit := send (.errorResponse code msg)

def setSession (f : Session → Session) : Handler σ Unit :=
  Proc.modify fun w => { w with conn := { w.conn with session := f w.conn.session } }

def setTxn (txn : TxnStatus) : Handler σ Unit := setSession fun s => { s with txn }

/-- Read from the stream. -/
def receive {α : Type} (x : Reader α) : Handler σ α := fun w =>
  match x w.input with
  | (r, input) => (r, { w with input })

/-- Walk over a message body; an error ends the connection. -/
def decodeBody {α : Type} (x : Decoder α) (buf : List UInt8) : Handler σ α :=
  match (x buf).1 with
  | .ok a => pure a
  | .error e => Proc.stop (.failed e)

/-- A call that returns. -/
def call {α : Type} (f : σ → σ × α) : Handler σ α := fun w =>
  match f w.shared with
  | (shared, a) => (.ok a, { w with shared })

/-- A call that may panic. -/
def callPanic {α : Type} (f : σ → Option (σ × α)) : Handler σ α := fun w =>
  match f w.shared with
  | some (shared, a) => (.ok a, { w with shared })
  | none => (.error .panicked, w)

/-- A value that a panic may come in place of. -/
def orPanic {α : Type} : Option α → Handler σ α
  | some a => pure a
  | none => Proc.stop .panicked

section Rules

variable {α : Type} {Q : α → World σ → Prop} {E : Stop → World σ → Prop} {w : World σ}

@[simp] theorem wp_send {Q : Unit → World σ → Prop} {m : Backend} :
    Proc.wp (send m) Q E w ↔ Q () { w with log := w.log ++ [.sent m] } := Proc.wp_modify

@[simp] theorem wp_call {f : σ → σ × α} :
    Proc.wp (call f) Q E w ↔ Q (f w.shared).2 { w with shared := (f w.shared).1 } := by
  unfold Proc.wp
  exact Iff.rfl

theorem wp_receive {x : Reader α} : Proc.wp (receive x) Q E w ↔
    Proc.wp x (fun a input => Q a { w with input }) (fun e input => E e { w with input })
      w.input := by
  unfold Proc.wp receive
  rcases x w.input with ⟨_ | _, _⟩ <;> rfl

end Rules

def sendReadyForQuery : Handler σ Unit := do
  let w ← Proc.get
  send (.readyForQuery w.conn.session.txn)

def sendRowDescription (qr : QueryResult) : Handler σ Unit :=
  if qr.columns = [] then send .noData
  else send (.rowDescription (qr.columns.map fun c => (c.name, columnType c)))

def sendRows (H : Host) (columns : List ResultColumn) : List Nat → Handler σ Unit
  | [] => pure ()
  | row :: rows => do
    send (.dataRow (columns.map (cellText H · row)))
    sendRows H columns rows

def sendDataRows (H : Host) (qr : QueryResult) : Handler σ Unit :=
  sendRows H qr.columns (List.range qr.rowCount)

section ResultRules

variable {Q : Unit → World σ → Prop} {E : Stop → World σ → Prop} {w : World σ}

theorem wp_sendRowDescription {qr : QueryResult} : Proc.wp (sendRowDescription qr) Q E w ↔
    Q () { w with log := w.log ++ [.sent (if qr.columns = [] then .noData
      else .rowDescription (qr.columns.map fun c => (c.name, columnType c)))] } := by
  unfold sendRowDescription
  split <;> exact wp_send

theorem wp_sendRows {H : Host} {columns : List ResultColumn} {rows : List Nat} :
    Proc.wp (sendRows H columns rows) Q E w ↔ Q () { w with
      log := w.log ++ rows.map fun row => .sent (.dataRow (columns.map (cellText H · row))) } := by
  induction rows generalizing w with
  | nil => simp [sendRows]
  | cons row rows ih => simp [sendRows, ih]

end ResultRules

/-! ## Statements -/

/-- The `Display` of an engine error. -/
def errorText : Error → String
  | .corruption msg => "corruption: " ++ msg
  | .notFound what => "not found: " ++ what
  | .parse msg => "parse error: " ++ msg
  | .io msg => "io error: " ++ msg
  | .other msg => msg

/-- `try_handle_user_ddl`: `none` for other statements, and otherwise the tag or the message. -/
def tryHandleUserDdl (sql : String) : Handler σ (Option (Except String String)) :=
  match userDdl S.host sql with
  | none => pure none
  | some .abort => Proc.stop .panicked
  | some (.refused msg) => pure (some (.error msg))
  | some (.create username password) => do
    call fun shared => (S.createUser shared username password, ())
    record (.userChanged username)
    pure (some (.ok "CREATE USER"))
  | some (.drop username ifExists) => do
    let existed ← call fun shared => S.dropUser shared username
    if existed then do
      record (.userChanged username)
      pure (some (.ok "DROP USER"))
    else if ifExists then pure (some (.ok "DROP USER"))
    else pure (some (.error ("user \"" ++ username ++ "\" does not exist")))

/-- The read-only path first, and the engine itself if that gives no result. -/
def askEngine (sql : String) : Handler σ (Except Error QueryResult) := do
  match ← callPanic fun shared => S.tryReadonlySelect shared sql with
  | .ok qr => pure (.ok qr)
  | .error _ => callPanic fun shared => S.execute shared sql

def runSql (sql : String) : Handler σ (Except Error QueryResult) := do
  record (.passed sql)
  askEngine S sql

def failTxn (wasTxn : Bool) : Handler σ Unit :=
  if wasTxn then setTxn .failedTransaction else pure ()

/-- The statements of a simple query, up to the first that fails. BEGIN, COMMIT and ROLLBACK only
change the status of the session. -/
def runStatements (wasTxn : Bool) : List String → Handler σ Unit
  | [] => pure ()
  | stmt :: rest =>
    let trimmed := trim stmt
    let lower := S.host.toLowercase trimmed
    if trimmed = "" then runStatements wasTxn rest
    else if startsWith lower "begin" || startsWith lower "start transaction" then do
      setTxn .inTransaction
      send (.commandComplete "BEGIN")
      runStatements wasTxn rest
    else if startsWith lower "commit" then do
      setTxn .idle
      send (.commandComplete "COMMIT")
      runStatements wasTxn rest
    else if startsWith lower "rollback" then do
      setTxn .idle
      send (.commandComplete "ROLLBACK")
      runStatements wasTxn rest
    else do
      match ← tryHandleUserDdl S trimmed with
      | some (.ok tag) => do
        send (.commandComplete tag)
        runStatements wasTxn rest
      | some (.error msg) => do
        sendError "42000" msg
        failTxn wasTxn
      | none =>
        match ← runSql S trimmed with
        | .ok qr => do
          sendRowDescription qr
          sendDataRows S.host qr
          send (.commandComplete (commandTag S.host qr trimmed))
          runStatements wasTxn rest
        | .error e => do
          sendError "42000" (errorText e)
          failTxn wasTxn

/-- `handle_simple_query`. -/
def handleSimpleQuery (sql : String) : Handler σ Unit := do
  let w ← Proc.get
  runStatements S (w.conn.session.txn != .idle) (splitSqlBatch sql)
  sendReadyForQuery

/-! ## The extended protocol -/

def setStatements (f : (String → Option PreparedStatement) → String → Option PreparedStatement) :
    Handler σ Unit :=
  Proc.modify fun w => { w with conn := { w.conn with statements := f w.conn.statements } }

def setPortals (f : (String → Option Portal) → String → Option Portal) : Handler σ Unit :=
  Proc.modify fun w => { w with conn := { w.conn with portals := f w.conn.portals } }

/-- A map with one entry set or removed. -/
def setEntry {α : Type} (key : String) (value : Option α) (m : String → Option α) :
    String → Option α := fun k => if k = key then value else m k

/-- The body of Parse: the name, and the statement. -/
def decodeParse : Decoder (String × PreparedStatement) := do
  let name ← readCstring
  let sql ← readCstring
  let n ← decodeU16 "Parse truncated"
  let paramOids ← decodeTimes (decodeU32 "Parse OID truncated") n
  pure (name, { sql, paramOids })

def handleParse (buf : List UInt8) : Handler σ Unit := do
  let (name, stmt) ← decodeBody decodeParse buf
  setStatements (setEntry name (some stmt))
  send .parseComplete

/-- The format of parameter `i`. -/
def paramFormat (formats : List Int) (i : Nat) : Int :=
  match formats with
  | [format] => format
  | _ => formats.getD i 0

/-- One parameter: NULL and a value become texts alike. -/
def decodeParam (formats : List Int) (i : Nat) : Decoder String := do
  let plen ← decodeI32 "Bind param truncated"
  if plen < 0 then pure "NULL"
  else do
    let bytes ← decodeBytes plen.toNat "Bind param overflow"
    if paramFormat formats i = 0 then pure (String.ofList (Utf8.lossy bytes))
    else pure ("\\x" ++ hexEncode bytes)

/-- The parameters from index `i` on. -/
def decodeParams (formats : List Int) (i : Nat) : Nat → Decoder (List String)
  | 0 => pure []
  | n + 1 => do
    let param ← decodeParam formats i
    let params ← decodeParams formats (i + 1) n
    pure (param :: params)

/-- The body of Bind: the name of the portal, and the portal. -/
def decodeBind : Decoder (String × Portal) := do
  let portalName ← readCstring
  let stmtName ← readCstring
  let nFmt ← decodeU16 "Bind truncated"
  let formats ← decodeTimes (decodeI16 "Bind fmt truncated") nFmt
  let nParams ← decodeU16 "Bind truncated"
  let params ← decodeParams formats 0 nParams
  let nRfmt ← decodeU16 "Bind rfmt truncated"
  let resultFormats ← decodeTimes (decodeI16 "Bind rfmt truncated") nRfmt
  pure (portalName, .new stmtName params resultFormats)

def handleBind (buf : List UInt8) : Handler σ Unit := do
  let (portalName, portal) ← decodeBody decodeBind buf
  let w ← Proc.get
  match w.conn.statements portal.stmtName with
  | none =>
    sendError "26000" ("prepared statement \"" ++ portal.stmtName ++ "\" does not exist")
  | some _ => do
    setPortals (setEntry portalName (some portal))
    send .bindComplete

/-- A kind byte and a name. -/
def decodeTarget (empty : String) : Decoder (UInt8 × String) := fun
  | [] => (.error (.invalid empty), [])
  | kind :: rest => (do let name ← readCstring; pure (kind, name)) rest

def handleDescribe (buf : List UInt8) : Handler σ Unit := do
  let (kind, name) ← decodeBody (decodeTarget "Describe empty") buf
  let w ← Proc.get
  if kind = 0x53 then
    match w.conn.statements name with
    | none => sendError "26000" ("statement \"" ++ name ++ "\" not found")
    | some stmt => do
      send (.parameterDescription stmt.paramOids)
      send .noData
  else if kind = 0x50 then
    match w.conn.portals name with
    | none => sendError "34000" ("portal \"" ++ name ++ "\" not found")
    | some portal =>
      match w.conn.statements portal.stmtName with
      | none => sendError "26000" ("statement \"" ++ portal.stmtName ++ "\" not found")
      | some _ => send .noData
  else sendError "08P01" "unknown describe kind"

/-- The body of Execute: the name of the portal, and the most rows to send. -/
def decodeExecute : Decoder (String × Int) := do
  let portalName ← readCstring
  let maxRows ← decodeI32 "Execute truncated"
  pure (portalName, maxRows)

/-- The end of the rows that are sent next. -/
def drainEnd (portal : Portal) (cached : CachedResult) (maxRows : Int) : Nat :=
  let limit := if 0 < maxRows then maxRows.toNat else cached.result.rowCount
  min (portal.cachedOffset + limit) cached.result.rowCount

/-- The next rows of a result that was executed before. -/
def drainPortal (H : Host) (portalName : String) (portal : Portal) (cached : CachedResult)
    (maxRows : Int) : Handler σ Unit := do
  let stop := drainEnd portal cached maxRows
  let batch ← orPanic (sliceResult cached.result portal.cachedOffset stop)
  sendDataRows H batch
  if cached.result.rowCount ≤ stop then do
    send (.commandComplete cached.tag)
    setPortals (setEntry portalName
      (some { portal with cachedResult := none, cachedOffset := 0 }))
  else do
    send .portalSuspended
    setPortals (setEntry portalName (some { portal with cachedOffset := stop }))

/-- The answer to an Execute: all rows, or the first and the portal keeps the rest. -/
def answerExecute (H : Host) (portalName : String) (portal : Portal) (sql : String)
    (maxRows : Int) : Except Error QueryResult → Handler σ Unit
  | .error e => sendError "42000" (errorText e)
  | .ok qr =>
    if 0 < maxRows ∧ maxRows.toNat < qr.rowCount then do
      let batch ← orPanic (sliceResult qr 0 maxRows.toNat)
      sendDataRows H batch
      send .portalSuspended
      setPortals (setEntry portalName
        (some { portal with
          cachedResult := some { result := qr, tag := commandTag H qr sql }
          cachedOffset := maxRows.toNat }))
    else do
      sendDataRows H qr
      send (.commandComplete (commandTag H qr sql))

/-- The text a portal stands for is executed. -/
def executePortal (portalName : String) (portal : Portal) (stmt : PreparedStatement)
    (maxRows : Int) : Handler σ Unit := do
  let sql ← orPanic (substituteParams S.overflowChecks stmt.sql portal.params)
  match ← tryHandleUserDdl S sql with
  | some (.ok tag) => send (.commandComplete tag)
  | some (.error msg) => sendError "42000" msg
  | none => do
    let r ← runSql S sql
    answerExecute S.host portalName portal sql maxRows r

def handleExecute (buf : List UInt8) : Handler σ Unit := do
  let (portalName, maxRows) ← decodeBody decodeExecute buf
  let w ← Proc.get
  match w.conn.portals portalName with
  | none => sendError "34000" ("portal \"" ++ portalName ++ "\" not found")
  | some portal =>
    match portal.cachedResult with
    | some cached => drainPortal S.host portalName portal cached maxRows
    | none =>
      match w.conn.statements portal.stmtName with
      | none => sendError "26000" ("statement \"" ++ portal.stmtName ++ "\" not found")
      | some stmt => executePortal S portalName portal stmt maxRows

/-- `handle_close`: what cannot be read is ignored. -/
def handleClose (buf : List UInt8) : Handler σ Unit :=
  match (decodeTarget "" buf).1 with
  | .ok (kind, name) =>
    if kind = 0x53 then setStatements (setEntry name none)
    else if kind = 0x50 then setPortals (setEntry name none)
    else pure ()
  | .error _ => pure ()

/-! ## Messages -/

/-- A message of the client. -/
structure Message where
  tag : UInt8
  body : List UInt8
  deriving DecidableEq, Repr

/-- Sync, Flush and Terminate, whose bodies are not read. -/
def bodyless (tag : UInt8) : Bool := tag == 0x53 || tag == 0x48 || tag == 0x58

/-- The text of a query: trailing NULs are dropped. -/
def queryText (body : List UInt8) : Except IoError String :=
  fromUtf8 (body.rdropWhile (· == 0))

/-- `{:#x}` of a byte. -/
def hexByte (b : UInt8) : String :=
  "0x" ++ (if b.toNat < 16 then String.ofList [hexDigit b.toNat] else hexEncode [b])

/-- One message of `run_loop`. -/
def handleMessage (m : Message) : Handler σ Unit :=
  if m.tag = 0x51 then
    match queryText m.body with
    | .ok sql => handleSimpleQuery S sql
    | .error e => Proc.stop (.failed e)
  else if m.tag = 0x50 then handleParse m.body
  else if m.tag = 0x42 then handleBind m.body
  else if m.tag = 0x44 then handleDescribe m.body
  else if m.tag = 0x45 then handleExecute S m.body
  else if m.tag = 0x53 then sendReadyForQuery
  else if m.tag = 0x43 then do
    handleClose m.body
    send .closeComplete
  else if m.tag = 0x48 then pure ()
  else if m.tag = 0x58 then Proc.stop .closed
  else sendError "0A000" ("unsupported msg " ++ hexByte m.tag)

/-- The frame of a message behind its type: the length, and the body if it is read. -/
def readRest (tag : UInt8) : Reader Message := do
  let len ← readI32Be
  if asUsize len < 4 then
    Proc.stop (.failed (.invalid
      ("msg " ++ hexByte tag ++ " len " ++ toString (asUsize len) ++ " < 4")))
  else if bodyless tag then pure { tag, body := [] }
  else do
    let body ← readBody (asUsize len - 4)
    pure { tag, body }

/-- The end of the stream between two messages closes the connection. -/
def readMessage : Reader Message := fun
  | [] => (.error .closed, [])
  | tag :: input => readRest tag input

/-- The messages of a stream, and how it ends. Where a message begins does not depend on what was
done with the ones before. -/
def messagesLoop : Nat → List UInt8 → List Message × Stop
  | 0, _ => ([], .closed)
  | fuel + 1, input =>
    match readMessage input with
    | (.error e, _) => ([], e)
    | (.ok m, rest) =>
      match messagesLoop fuel rest with
      | (ms, e) => (m :: ms, e)

def messages (input : List UInt8) : List Message × Stop := messagesLoop (input.length + 1) input

/-- The loop over the messages. -/
def handleMessages : List Message → Handler σ Unit
  | [] => pure ()
  | m :: ms => do
    handleMessage S m
    handleMessages ms

end Handlers

end TensorVault.Server
