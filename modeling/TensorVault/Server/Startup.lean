import TensorVault.Server.PgConn

/-!
# Startup, authentication and the whole connection

A connection begins with packets that have no type byte: requests for TLS, which are declined, and
then one packet that ends the startup. If authentication is required, the SCRAM exchange follows a
startup packet of the right version. After that the message loop runs, whatever the packet was.
-/

namespace TensorVault.Server

open Text

def sslRequestMagic : Int := 80877103

def gssapiRequestMagic : Int := 80877104

def cancelRequestMagic : Int := 80877102

/-- The body of a startup packet. -/
def readPacket : Reader (List UInt8) := do
  let len ← readI32Be
  if 4 ≤ len ∧ len ≤ 1000000 then do
    let body ← readExact (len - 4).toNat
    if body.length < 4 then Proc.stop (.failed (.invalid "startup too short")) else pure body
  else Proc.stop (.failed (.invalid ("startup len " ++ toString len)))

/-- The protocol code of a packet. -/
def packetMagic : List UInt8 → Int
  | a :: b :: c :: d :: _ => beI32 a b c d
  | _ => 0

section Startup

variable {σ δ : Type} {Q : Unit → World σ → Prop} {E : Stop → World σ → Prop} {w : World σ}

/-- One pair of `parse_startup_v3_params`. -/
def applyParam (s : Session) (p : String × String) : Session :=
  if p.1 = "user" then { s with user := some p.2 }
  else if p.1 = "database" then { s with database := some p.2 }
  else if p.1 = "application_name" then { s with applicationName := some p.2 }
  else s

/-- `parse_startup_v3_params`, and the default for the user. -/
def startupSession (body : List UInt8) (s : Session) : Session :=
  let s := (parseCstringPairs (body.drop 4)).foldl applyParam s
  { s with user := some (s.user.getD "turboGP") }

def parameterStatuses : List (String × String) :=
  [("server_version", "15.0"), ("server_encoding", "UTF8"), ("client_encoding", "UTF8"),
    ("DateStyle", "ISO, MDY"), ("integer_datetimes", "on"), ("standard_conforming_strings", "on"),
    ("application_name", "turboGP"), ("IntervalStyle", "postgres"), ("TimeZone", "UTC")]

def sendAll : List Backend → Handler σ Unit
  | [] => pure ()
  | m :: ms => do
    send m
    sendAll ms

def sendAuthOkAndParams : Handler σ Unit := do
  send .authenticationOk
  sendAll (parameterStatuses.map fun p => .parameterStatus p.1 p.2)
  send .backendKeyData
  sendReadyForQuery

@[simp] theorem wp_sendAll {ms : List Backend} {w : World σ} :
    Proc.wp (sendAll ms) Q E w ↔ Q () { w with log := w.log ++ ms.map .sent } := by
  induction ms generalizing w with
  | nil => simp [sendAll]
  | cons m ms ih => simp [sendAll, ih]

/-- The greeting returns and adds to the log. -/
theorem wp_sendAuthOkAndParams
    (h : ∀ log, Q () { w with log }) : Proc.wp sendAuthOkAndParams Q E w := by
  simp only [sendAuthOkAndParams, sendReadyForQuery, Proc.wp_bind, wp_send, wp_sendAll, Proc.wp_get]
  exact h _

/-! ## SCRAM -/

/-- The body of a `p` message. -/
def readPassword (short : String) : Reader (List UInt8) := do
  let tag ← readByte
  if tag = 0x70 then do
    let len ← readI32Be
    if asUsize len < 4 then Proc.stop (.failed (.invalid short))
    else readBody (asUsize len - 4)
  else Proc.stop (.failed (.invalid ("expected 'p' msg, got " ++ hexByte tag)))

/-- Mechanism and initial response; `none` if the message ends behind the mechanism. -/
def decodeSaslInitial : Decoder (Option (String × List UInt8)) := fun buf =>
  match readCstring buf with
  | (.error e, rest) => (.error e, rest)
  | (.ok mech, a :: b :: c :: d :: rest) =>
    if beI32 a b c d < 0 then (.ok (some (mech, [])), rest)
    else if (beI32 a b c d).toNat ≤ rest.length then
      (.ok (some (mech, rest.take (beI32 a b c d).toNat)), rest)
    else (.error (.invalid "sasl init overflow"), rest)
  | (.ok _, rest) => (.ok none, rest)

/-- The connection is refused: an ErrorResponse, and an error. -/
def reject (code msg : String) (e : IoError) : Handler σ Unit := do
  sendError code msg
  Proc.stop (.failed e)

theorem wp_reject {code msg : String} {e : IoError} : Proc.wp (reject code msg e) Q E w ↔
      E (.failed e) { w with log := w.log ++ [.sent (.errorResponse code msg)] } := by
  simp only [reject, sendError, Proc.wp_bind, wp_send, Proc.wp_stop]

variable [DecidableEq δ] (S : Services σ δ)

/-- The last part of `do_scram_auth`: the client-final message. -/
def finishScram (readFinal : Handler σ (List UInt8)) (username bare server : String)
    (cred : StoredCredential δ) : Handler σ Unit := do
  let final ← readFinal
  match Utf8.decode final with
  | none => reject "28000" "client_final not utf8" (.invalid "client_final not utf8")
  | some cs =>
    match verifyScram S.primitives cred bare server (String.ofList cs) with
    | some signature => do
      record (.verified username)
      send (.authenticationSaslFinal ("v=" ++ signature))
      sendAuthOkAndParams
    | none =>
      reject "28P01" "password authentication failed"
        { kind := .permissionDenied, message := "scram proof invalid" }

/-- `do_scram_auth` from the client-first message on. -/
def answerClientFirst (readFinal : Handler σ (List UInt8)) (clientFirst : List UInt8) :
    Handler σ Unit := do
  let bare := stripGs2Header clientFirst
  match parseClientFirstBare bare with
  | none => reject "28000" "malformed client-first message" (.invalid "bad client-first")
  | some (username, clientNonce) =>
    match ← call fun shared => S.getUser shared username with
    | none =>
      reject "28000" ("user \"" ++ username ++ "\" does not exist")
        { kind := .permissionDenied, message := "unknown user" }
    | some cred => do
      let nonce ← call S.serverNonce
      let server := serverFirst S.primitives clientNonce nonce cred
      send (.authenticationSaslContinue server)
      finishScram S readFinal username bare server cred

/-- `do_scram_auth` with a client that sends the two messages when it is asked for them. -/
def scramAuth (readInitial : Handler σ (Option (String × List UInt8)))
    (readFinal : Handler σ (List UInt8)) : Handler σ Unit := do
  send .authenticationSasl
  match ← readInitial with
  | none =>
    reject "28000" "expected SASLInitialResponse" (.invalid "expected SASLInitialResponse")
  | some (mech, clientFirst) =>
    if mech = "SCRAM-SHA-256" then answerClientFirst S readFinal clientFirst
    else reject "28000" ("unsupported SASL mechanism: " ++ mech) (.invalid ("bad mech " ++ mech))

/-- `read_sasl_initial_response`. -/
def readSaslInitialResponse : Handler σ (Option (String × List UInt8)) := do
  let buf ← receive (readPassword "sasl init len")
  decodeBody decodeSaslInitial buf

/-- `read_sasl_response`. -/
def readSaslResponse : Handler σ (List UInt8) := receive (readPassword "sasl resp len")

def doScramAuth : Handler σ Unit := scramAuth S readSaslInitialResponse readSaslResponse

/-! ## The connection -/

/-- The loop of `handle_startup`. A packet takes at least eight bytes, so when the fuel is used up
the input is too. -/
def startupLoop : Nat → Handler σ Unit
  | 0 => Proc.stop (.failed .eof)
  | fuel + 1 => do
    let body ← receive readPacket
    let magic := packetMagic body
    if magic = sslRequestMagic ∨ magic = gssapiRequestMagic then do
      send .sslRefused
      startupLoop fuel
    else if magic = cancelRequestMagic then pure ()
    else if 196608 ≤ magic ∧ magic ≤ 196620 then do
      setSession (startupSession body)
      if S.authRequired then doScramAuth S else sendAuthOkAndParams
    else
      reject "08P01" "unsupported protocol" (.invalid ("magic " ++ toString magic))

def handleStartup : Handler σ Unit := do
  let w ← Proc.get
  startupLoop S w.input.length

/-- `run_loop`. -/
def runLoop : Handler σ Unit := do
  handleStartup S
  let w ← Proc.get
  handleMessages S (messages w.input).1
  Proc.stop (messages w.input).2

/-- A connection that was just accepted. -/
def World.start (shared : σ) (input : List UInt8) : World σ :=
  { conn := .new, shared, input, log := [] }

/-- `PgConn::handle`, from the first byte to the end of the stream. -/
def connection (shared : σ) (input : List UInt8) : Except Stop Unit × World σ :=
  runLoop S (.start shared input)

end Startup

end TensorVault.Server
