import TensorVault.Server.Wire
import TensorVault.Lib.Scram

/-!
# Users and SCRAM-SHA-256

The credentials of `server/auth.rs`, the check of a client-final message, and the statements CREATE
USER and DROP USER. SHA-256, HMAC, PBKDF2 and base64 are abstract primitives (`Scram.Primitives`).
`verify_scram` reads the attributes `c=` and `r=` of a client-final message and drops them.
-/

namespace TensorVault.Server

open Text

/-! ## Credentials -/

structure StoredCredential (δ : Type) where
  salt : List UInt8
  iterations : Nat
  storedKey : δ
  serverKey : δ

/-- `DEFAULT_ITERATIONS`. -/
def defaultIterations : Nat := 4096

section Credential

variable {δ : Type} (P : Scram.Primitives δ)

/-- The client key of a password. -/
def clientKey (password salt : List UInt8) (iterations : Nat) : δ :=
  P.mac (P.stretch password salt iterations) (bytesOf "Client Key")

/-- `StoredCredential::from_password`. -/
def StoredCredential.fromPassword (password : String) (salt : List UInt8) (iterations : Nat) :
    StoredCredential δ where
  salt := salt
  iterations := iterations
  storedKey := P.hash (clientKey P (bytesOf password) salt iterations)
  serverKey := P.mac (P.stretch (bytesOf password) salt iterations) (bytesOf "Server Key")

end Credential

/-- `PasswordManager`. -/
structure PasswordManager (δ : Type) where
  users : String → Option (StoredCredential δ)

namespace PasswordManager

variable {δ : Type}

def new : PasswordManager δ := { users := fun _ => none }

/-- `create_user_with_salt`. -/
def createUserWithSalt (P : Scram.Primitives δ) (m : PasswordManager δ)
    (username password : String) (salt : List UInt8) (iterations : Nat) : PasswordManager δ where
  users := fun name =>
    if name = username then some (.fromPassword P password salt iterations) else m.users name

def dropUser (m : PasswordManager δ) (username : String) : PasswordManager δ × Bool :=
  ({ users := fun name => if name = username then none else m.users name },
    (m.users username).isSome)

end PasswordManager

/-! ## The messages of the exchange -/

/-- `str::strip_prefix`. -/
def stripPre (pre cs : List Char) : Option (List Char) :=
  if pre.isPrefixOf cs then some (cs.drop pre.length) else none

/-- The value of the last part of a comma-separated text that starts with `key`. -/
def lastAttribute (key : String) (text : String) : Option (List Char) :=
  ((splitOn ',' text.toList).filterMap (stripPre key.toList)).getLast?

/-- The text before the last occurrence of `pat`: `rfind` and the slice up to it. -/
def beforeLast (pat : List Char) : List Char → Option (List Char)
  | [] => none
  | c :: cs =>
    match beforeLast pat cs with
    | some pre => some (c :: pre)
    | none => if pat.isPrefixOf (c :: cs) then some [] else none

/-- The text behind the second comma, or all of it. -/
def stripGs2Chars (cs : List Char) : List Char :=
  let after := (cs.dropWhile (· != ',')).drop 1
  match after.dropWhile (· != ',') with
  | [] => cs
  | _ :: bare => bare

/-- `strip_gs2_header`; a message that is not UTF-8 counts as an empty one. -/
def stripGs2Header (clientFirst : List UInt8) : String :=
  match Utf8.decode clientFirst with
  | some cs => String.ofList (stripGs2Chars cs)
  | none => ""

/-- `parse_client_first_bare`: user name and nonce. -/
def parseClientFirstBare (bare : String) : Option (String × String) :=
  match lastAttribute "n=" bare, lastAttribute "r=" bare with
  | some username, some nonce => some (String.ofList username, String.ofList nonce)
  | _, _ => none

/-- The characters of a server nonce. -/
def nonceCharset : List Char :=
  "abcdefghijklmnopqrstuvwxyzABCDEFGHIJKLMNOPQRSTUVWXYZ0123456789".toList

/-- What `random_server_nonce` may return. -/
structure ServerNonce where
  text : String
  length_eq : text.toList.length = 18
  charset : ∀ c ∈ text.toList, c ∈ nonceCharset

theorem charset_letters : ∀ c ∈ "abcdefghijklmnopqr".toList, c ∈ nonceCharset := by decide

/-- A nonce that a generator may return. -/
def ServerNonce.letters : ServerNonce :=
  { text := "abcdefghijklmnopqr", length_eq := rfl, charset := charset_letters }

/-- The server-first message for a client nonce. -/
def serverFirst {δ : Type} (P : Scram.Primitives δ) (clientNonce : String) (nonce : ServerNonce)
    (cred : StoredCredential δ) : String :=
  "r=" ++ clientNonce ++ nonce.text ++ ",s=" ++
    String.ofList (P.base64.encode cred.salt) ++ ",i=" ++ toString cred.iterations

/-- The bytes the MACs are taken of. -/
def authMessage (bare server withoutProof : String) : List UInt8 :=
  bytesOf (bare ++ "," ++ server ++ "," ++ withoutProof)

/-- `verify_scram`: the server signature if the proof is right. -/
def verifyScram {δ : Type} [DecidableEq δ] (P : Scram.Primitives δ) (cred : StoredCredential δ)
    (bare server clientFinal : String) : Option String := do
  let proofB64 ← lastAttribute "p=" clientFinal
  let bytes ← P.base64.decode proofB64
  let clientProof ← P.ofBytes bytes
  let withoutProof ← beforeLast ",p=".toList clientFinal.toList
  let message := authMessage bare server (String.ofList withoutProof)
  if P.hash (P.xor clientProof (P.mac cred.storedKey message)) = cred.storedKey then
    some (String.ofList (P.base64.encode (P.toBytes (P.mac cred.serverKey message))))
  else none

/-! ## CREATE USER and DROP USER -/

/-- `split_username`: a name in double quotes, or everything up to white space. -/
def splitUsername (cs : List Char) : Option (List Char × List Char) :=
  match trimStart cs with
  | [] => none
  | '"' :: rest =>
    match rest.dropWhile (· != '"') with
    | [] => none
    | _ :: after => some (rest.takeWhile (· != '"'), after)
  | c :: rest =>
    some ((c :: rest).takeWhile (!isWhitespace ·), (c :: rest).dropWhile (!isWhitespace ·))

def literalLoop : List UInt8 → Option (List Char)
  | [] => none
  | b :: rest =>
    if b = quote then
      match rest with
      | d :: rest' => if d = quote then (literalLoop rest').map ('\'' :: ·) else some []
      | [] => some []
    else (literalLoop rest).map (byteChar b :: ·)

/-- `extract_string_literal`, on the bytes of the text. -/
def extractStringLiteral (cs : List Char) : Option (List Char) :=
  match Utf8.encode (trimStart cs) with
  | b :: rest => if b = quote then literalLoop rest else none
  | [] => none

/-- What a text that the wire layer takes for itself asks for. -/
inductive UserDdl where
  | create (username password : String)
  | drop (username : String) (ifExists : Bool)
  | refused (msg : String)
  | abort
  deriving DecidableEq, Repr

/-- `handle_create_user`. The offset of PASSWORD is looked up in the lowercased text and used on
the original. -/
def parseCreateUser (H : Host) (sql : String) : UserDdl :=
  match dropBytes 11 sql.toList with
  | none => .abort
  | some after =>
    match splitUsername (trimStart after) with
    | none => .refused "expected username after CREATE USER"
    | some (username, rest) =>
      match findBytes "password".toList (H.toLowercase (String.ofList rest)).toList with
      | none => .refused "expected PASSWORD '...' in CREATE USER"
      | some idx =>
        match dropBytes (idx + 8) rest with
        | none => .abort
        | some afterPw =>
          match extractStringLiteral (trimStart afterPw) with
          | none => .refused "expected 'password' string literal in CREATE USER"
          | some password => .create (String.ofList username) (String.ofList password)

/-- `handle_drop_user`. -/
def parseDropUser (H : Host) (sql : String) : UserDdl :=
  match dropBytes 9 sql.toList with
  | none => .abort
  | some after =>
    let after := trimStart after
    let ifExists := startsWith (H.toLowercase (String.ofList after)) "if exists "
    match (if ifExists then (dropBytes 10 after).map trimStart else some after) with
    | none => .abort
    | some rest =>
      match splitUsername rest with
      | none => .refused "expected username after DROP USER"
      | some (username, _) => .drop (String.ofList username) ifExists

/-- `try_handle_user_ddl` up to what it does to the password manager. -/
def userDdl (H : Host) (sql : String) : Option UserDdl :=
  let lower := H.toLowercase (trim sql)
  if startsWith lower "create user " then some (parseCreateUser H (trim sql))
  else if startsWith lower "drop user " then some (parseDropUser H (trim sql))
  else none

end TensorVault.Server
