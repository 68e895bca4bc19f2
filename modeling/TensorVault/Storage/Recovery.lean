import TensorVault.Basic
import TensorVault.Lib.Base64
import TensorVault.Lib.Utf8

/-!
# The write-ahead log file

A record is one line of text,

    txn_id|commit|rollback|base64(sql)|physical_json

with an empty last field for SQL records. Short lines are taken for the older format without base64,
and a field that does not decode for the older escaping. base64 and serde_json are given by the laws
that reading back needs (`Base64.Codec`, `JsonCodec`).
-/

namespace TensorVault

open Text

/-! ## Records -/

inductive PhysicalChange where
  | pageAlloc (tableId : UInt64) (pageNum : UInt32)
  | cellUpdate (tableId : UInt64) (pageNum : UInt32) (cellIndex oldValue newValue : UInt64)
  | rowInsert (tableId : UInt64) (pageNum : UInt32) (rowOffset : UInt64) (values : List UInt64)
  | rowDelete (tableId : UInt64) (pageNum : UInt32) (rowOffset : UInt64)
  deriving DecidableEq, Repr

@[ext]
structure WalRecord where
  txnId : UInt64
  sql : String
  isCommit : Bool
  isRollback : Bool
  physicalChange : Option PhysicalChange
  deriving DecidableEq, Repr

namespace WalRecord

def autocommit (sql : String) : WalRecord :=
  { txnId := 0, sql, isCommit := false, isRollback := false, physicalChange := none }

/-- `WalRecord::begin`. -/
def beginTxn (txnId : UInt64) : WalRecord :=
  { txnId, sql := "", isCommit := false, isRollback := false, physicalChange := none }

def commit (txnId : UInt64) : WalRecord :=
  { txnId, sql := "", isCommit := true, isRollback := false, physicalChange := none }

def rollback (txnId : UInt64) : WalRecord :=
  { txnId, sql := "", isCommit := false, isRollback := true, physicalChange := none }

def txnDml (txnId : UInt64) (sql : String) : WalRecord :=
  { txnId, sql, isCommit := false, isRollback := false, physicalChange := none }

end WalRecord

/-! ## The codecs -/

/-- serde_json on `PhysicalChange`. -/
structure JsonCodec where
  toString : PhysicalChange → List Char
  fromStr : List Char → Option PhysicalChange
  /-- Parsing undoes printing. -/
  fromStr_toString : ∀ change, fromStr (toString change) = some change
  /-- A JSON object ends with the brace that closes it, so no shorter text is one. -/
  fromStr_take : ∀ change k, k < (toString change).length →
    fromStr ((toString change).take k) = none
  /-- An object is not the empty text. -/
  toString_ne_nil : ∀ change, toString change ≠ []
  /-- The compact form has no line breaks, and names and numbers are ASCII. -/
  printable : ∀ change, ∀ c ∈ toString change, 0x20 ≤ c.toNat ∧ c.toNat < 0x7F

namespace Wal

section File

variable (B : Base64.Codec) (J : JsonCodec)

/-! ## Writing -/

def flag (b : Bool) : Char := if b then '1' else '0'

def txnIdText (r : WalRecord) : List Char := Nat.toDigits 10 r.txnId.toNat

def sqlText (r : WalRecord) : List Char := B.encode (Utf8.encode r.sql.toList)

def physicalText (r : WalRecord) : List Char :=
  match r.physicalChange with
  | some change => J.toString change
  | none => []

/-- The line of a record, without its line break. -/
def lineText (r : WalRecord) : List Char :=
  txnIdText r ++ '|' :: flag r.isCommit :: '|' :: flag r.isRollback :: '|' ::
    (sqlText B r ++ '|' :: physicalText J r)

/-- The bytes `Wal::append` adds to the file. -/
def lineBytes (r : WalRecord) : List UInt8 := Utf8.encode (lineText B J r ++ ['\n'])

def append (file : List UInt8) (r : WalRecord) : List UInt8 := file ++ lineBytes B J r

/-- The file after appending the records to an empty one. -/
def file (records : List WalRecord) : List UInt8 := records.foldl (append B J) []

/-! ## Reading -/

/-- A line as `BufRead::lines` returns it: without its line break, `\n` or `\r\n`. -/
def stripCr (line : List UInt8) : List UInt8 :=
  if line.getLast? = some 0x0D then line.dropLast else line

/-- `BufRead::lines`, with the bytes of the line so far. -/
def linesLoop : List UInt8 → List UInt8 → List (List UInt8)
  | [], [] => []
  | line, [] => [line]
  | line, b :: bs =>
    if b = 0x0A then stripCr line :: linesLoop [] bs else linesLoop (line ++ [b]) bs

def lines (bytes : List UInt8) : List (List UInt8) := linesLoop [] bytes

def decodeLegacySql (s : List Char) : List Char :=
  replacePair '\\' 'n' ['\n'] (replacePair '\\' '|' ['|'] s)

def parseTxnId (s : List Char) : UInt64 := (parseU64 (String.ofList s)).getD 0

def isSet (s : List Char) : Bool := s == ['1']

def parseLegacyRecord (line : List Char) : WalRecord :=
  let parts := splitN '|' 4 line
  { txnId := parseTxnId (parts.getD 0 [])
    isCommit := (parts[1]?).any isSet
    isRollback := (parts[2]?).any isSet
    sql := String.ofList ((parts[3]?.map decodeLegacySql).getD [])
    physicalChange := none }

/-- The SQL field: base64, or the older escaping if that fails. -/
def readSql (field : List Char) : List Char :=
  match B.decode field with
  | some bytes => Utf8.lossy bytes
  | none => decodeLegacySql field

def readPhysical (field : List Char) : Option PhysicalChange :=
  if field.isEmpty then none else J.fromStr field

/-- A line of the file; blank lines have no record. -/
def parseLine (line : List Char) : Option WalRecord :=
  if (trimChars line).isEmpty then none
  else
    match splitN '|' 5 line with
    | txnId :: commit :: rollback :: sql :: rest =>
      some
        { txnId := parseTxnId txnId
          sql := String.ofList (readSql B sql)
          isCommit := isSet commit
          isRollback := isSet rollback
          physicalChange := readPhysical J (rest.headD []) }
    | _ => some (parseLegacyRecord line)

/-- `Wal::read_all`; `none` is the I/O error for a line that is not UTF-8. -/
def readAll (bytes : List UInt8) : Option (List WalRecord) :=
  match (lines bytes).mapM Utf8.decode with
  | some texts => some (texts.filterMap (parseLine B J))
  | none => none

end File

end Wal

end TensorVault
