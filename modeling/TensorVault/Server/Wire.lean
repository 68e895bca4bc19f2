import TensorVault.Engine.Result
import TensorVault.Lib.Proc
import TensorVault.Lib.Utf8

/-!
# Bytes and texts of the wire protocol

A decoder walks over a buffer; the cursor of the source is the part of the buffer that is left.
Lengths become `usize` by a cast, so a negative one is near `2 ^ 64`, and `vec![0u8; n]` panics on
it. `split_sql_batch` and `substitute_params` push each byte as a character of its own (`byteChar`).
-/

namespace TensorVault.Server

open Text

/-! ## How a connection ends -/

inductive ErrorKind where
  | unexpectedEof
  | invalidData
  | permissionDenied
  deriving DecidableEq, Repr

/-- An `io::Error`. The text is empty where the standard library writes it. -/
structure IoError where
  kind : ErrorKind
  message : String
  deriving DecidableEq, Repr

def IoError.eof : IoError := { kind := .unexpectedEof, message := "" }

def IoError.invalid (message : String) : IoError := { kind := .invalidData, message }

inductive Stop where
  /-- The handler returned `Ok`. -/
  | closed
  | failed (e : IoError)
  | panicked
  deriving DecidableEq, Repr

/-! ## Numbers -/

def beU16 (a b : UInt8) : Nat := a.toNat * 256 + b.toNat

def beU32 (a b c d : UInt8) : Nat := beU16 a b * 65536 + beU16 c d

def beI16 (a b : UInt8) : Int := if beU16 a b < 0x8000 then beU16 a b else beU16 a b - 0x10000

def beI32 (a b c d : UInt8) : Int :=
  if beU32 a b c d < 0x80000000 then beU32 a b c d else beU32 a b c d - 0x100000000

/-- `as usize`, on a target of 64 bits. -/
def asUsize (n : Int) : Nat := (n % 0x10000000000000000).toNat

/-- `isize::MAX`, the most bytes a vector holds. -/
def maxCapacity : Nat := 2 ^ 63 - 1

/-! ## Reading the stream -/

/-- What is read from the stream; the state is the input that is left. -/
abbrev Reader (α : Type) : Type := Proc (List UInt8) Stop α

/-- `read_exact` of a buffer that exists already. -/
def readExact (n : Nat) : Reader (List UInt8) := fun input =>
  if n ≤ input.length then (.ok (input.take n), input.drop n)
  else (.error (.failed .eof), [])

/-- `read_body`: the buffer is allocated before anything is read. -/
def readBody (n : Nat) : Reader (List UInt8) :=
  if n ≤ maxCapacity then readExact n else Proc.stop .panicked

def readByte : Reader UInt8 := fun
  | [] => (.error (.failed .eof), [])
  | b :: rest => (.ok b, rest)

def readI32Be : Reader Int := fun
  | a :: b :: c :: d :: rest => (.ok (beI32 a b c d), rest)
  | _ => (.error (.failed .eof), [])

/-! ## Decoding a message -/

/-- A walk over a message body; the state is what is left of it. -/
abbrev Decoder (α : Type) : Type := Proc (List UInt8) IoError α

/-- `String::from_utf8`. -/
def fromUtf8 (bytes : List UInt8) : Except IoError String :=
  match Utf8.decode bytes with
  | some cs => .ok (String.ofList cs)
  | none => .error (.invalid "")

def readCstring : Decoder String := fun buf =>
  match buf.dropWhile (· != 0) with
  | [] => (.error (.invalid "missing NUL"), buf)
  | _ :: rest => (fromUtf8 (buf.takeWhile (· != 0)), rest)

def decodeU16 (truncated : String) : Decoder Nat := fun
  | a :: b :: rest => (.ok (beU16 a b), rest)
  | buf => (.error (.invalid truncated), buf)

def decodeI16 (truncated : String) : Decoder Int := fun
  | a :: b :: rest => (.ok (beI16 a b), rest)
  | buf => (.error (.invalid truncated), buf)

def decodeU32 (truncated : String) : Decoder Nat := fun
  | a :: b :: c :: d :: rest => (.ok (beU32 a b c d), rest)
  | buf => (.error (.invalid truncated), buf)

def decodeI32 (truncated : String) : Decoder Int := fun
  | a :: b :: c :: d :: rest => (.ok (beI32 a b c d), rest)
  | buf => (.error (.invalid truncated), buf)

/-- `&buf[c..c + n]` behind the test that it is inside. -/
def decodeBytes (n : Nat) (overflow : String) : Decoder (List UInt8) := fun buf =>
  if n ≤ buf.length then (.ok (buf.take n), buf.drop n) else (.error (.invalid overflow), buf)

def decodeTimes {α : Type} (x : Decoder α) : Nat → Decoder (List α)
  | 0 => pure []
  | n + 1 => do
    let a ← x
    let as ← decodeTimes x n
    pure (a :: as)

/-- `parse_cstring_pairs`; the fuel is the length of the buffer. -/
def parsePairsLoop : Nat → List UInt8 → List (String × String)
  | 0, _ => []
  | fuel + 1, buf =>
    if buf = [] ∨ buf.head? = some 0 then []
    else
      match readCstring buf with
      | (.error _, _) => []
      | (.ok k, rest) =>
        if rest = [] ∨ rest.head? = some 0 then [(k, "")]
        else
          match readCstring rest with
          | (.error _, _) => []
          | (.ok v, rest) => (k, v) :: parsePairsLoop fuel rest

def parseCstringPairs (buf : List UInt8) : List (String × String) := parsePairsLoop buf.length buf

/-! ## Texts byte by byte -/

/-- The bytes of a text. -/
def bytesOf (s : String) : List UInt8 := Utf8.encode s.toList

/-- `b as char`. -/
def byteChar (b : UInt8) : Char := Char.ofNat b.toNat

theorem toNat_byteChar {b : UInt8} : (byteChar b).toNat = b.toNat := by
  have hlt := b.toNat_lt
  unfold byteChar Char.ofNat
  rw [dif_pos (show b.toNat.isValidChar from .inl (by omega))]
  rfl

theorem byteChar_injective : Function.Injective byteChar := by
  intro a b h
  rw [← UInt8.toNat_inj, ← toNat_byteChar, ← toNat_byteChar, h]

/-- ASCII is read right. -/
theorem byteChar_ascii {c : Char} (h : c.toNat < 0x80) : byteChar (UInt8.ofNat c.toNat) = c := by
  rw [← Char.toNat_inj, toNat_byteChar, Utf8.toNat_byte (by omega)]

def quote : UInt8 := 0x27

/-- A statement that is finished: it is given out unless it is blank, and a blank one stays. -/
def flushStatement (current : List Char) : List String × List Char :=
  if trimChars current = [] then ([], current) else ([String.ofList current], [])

/-- The input behind a `GO` line, if `c` begins one. -/
def goSeparator (prev : Option UInt8) (c : UInt8) (rest : List UInt8) : Option (List UInt8) :=
  match rest with
  | o :: rest =>
    if (c = 0x47 ∨ c = 0x67) ∧ (o = 0x4F ∨ o = 0x6F) ∧
        (prev = none ∨ prev = some 0x0A ∨ prev = some 0x0D) then
      let after := rest.dropWhile fun b => b == 0x20 || b == 0x09
      if after = [] ∨ after.head? = some 0x0A ∨ after.head? = some 0x0D then some after else none
    else none
  | [] => none

/-- The loop of `split_sql_batch`. `prev` is the byte before the current one; behind a `GO` line
it only matters that it is no line break. -/
def splitLoop : Nat → Option UInt8 → Bool → List Char → List UInt8 → List String
  | _, _, _, current, [] => (flushStatement current).1
  | 0, _, _, current, _ => (flushStatement current).1
  | fuel + 1, _, true, current, c :: rest =>
    if c = quote then
      match rest with
      | d :: rest' =>
        if d = quote then splitLoop fuel (some d) true (current ++ ['\'', '\'']) rest'
        else splitLoop fuel (some c) false (current ++ [byteChar c]) rest
      | [] => splitLoop fuel (some c) false (current ++ [byteChar c]) rest
    else splitLoop fuel (some c) true (current ++ [byteChar c]) rest
  | fuel + 1, prev, false, current, c :: rest =>
    if c = quote then splitLoop fuel (some c) true (current ++ ['\'']) rest
    else
      match goSeparator prev c rest with
      | some after =>
        (flushStatement current).1 ++
          splitLoop fuel (some 0x4F) false (flushStatement current).2 after
      | none =>
        if c = 0x3B then
          (flushStatement current).1 ++
            splitLoop fuel (some c) false (flushStatement current).2 rest
        else splitLoop fuel (some c) false (current ++ [byteChar c]) rest

def splitSqlBatch (sql : String) : List String :=
  splitLoop (bytesOf sql).length none false [] (bytesOf sql)

def isAsciiDigit (b : UInt8) : Bool := 0x30 ≤ b.toNat && b.toNat ≤ 0x39

/-- The number behind a `$`: `usize` arithmetic, which panics on overflow in a build with overflow
checks and wraps around in one without. -/
def placeholderNumber (checks : Bool) (digits : List UInt8) : Option Nat :=
  let n := digits.foldl (fun n b => n * 10 + (b.toNat - 0x30)) 0
  if n < 2 ^ 64 then some n else if checks then none else some (n % 2 ^ 64)

def substituteLoop (checks : Bool) (params : List String) : Nat → List UInt8 → Option (List Char)
  | _, [] => some []
  | 0, _ => some []
  | fuel + 1, b :: rest =>
    if b = 0x24 ∧ (rest.head?.map isAsciiDigit).getD false then
      match placeholderNumber checks (rest.takeWhile isAsciiDigit) with
      | none => none
      | some n =>
        let text := if 1 ≤ n ∧ n ≤ params.length then params.getD (n - 1) "" else "NULL"
        (substituteLoop checks params fuel (rest.dropWhile isAsciiDigit)).map (text.toList ++ ·)
    else (substituteLoop checks params fuel rest).map (byteChar b :: ·)

/-- `substitute_params`; `none` is a panic. -/
def substituteParams (checks : Bool) (sql : String) (params : List String) : Option String :=
  (substituteLoop checks params (bytesOf sql).length (bytesOf sql)).map String.ofList

def hexDigit (n : Nat) : Char := if n < 10 then Char.ofNat (0x30 + n) else Char.ofNat (0x57 + n)

def hexEncode (bytes : List UInt8) : String :=
  String.ofList (bytes.flatMap fun b => [hexDigit (b.toNat / 16), hexDigit (b.toNat % 16)])

/-! ## Results -/

def commandTag (H : Host) (qr : QueryResult) (sql : String) : String :=
  let lower := H.toLowercase (String.ofList (sql.toList.dropWhile isWhitespace))
  if startsWith lower "select" || startsWith lower "with" then "SELECT " ++ toString qr.rowCount
  else if startsWith lower "insert" then "INSERT 0 " ++ toString qr.rowCount
  else if startsWith lower "update" then "UPDATE " ++ toString qr.rowCount
  else if startsWith lower "delete" then "DELETE " ++ toString qr.rowCount
  else if startsWith lower "create" then "CREATE"
  else if startsWith lower "drop" then "DROP"
  else if startsWith lower "begin" || startsWith lower "start transaction" then "BEGIN"
  else if startsWith lower "commit" then "COMMIT"
  else if startsWith lower "rollback" then "ROLLBACK"
  else "OK"

/-- `&xs[start..end]`. -/
def sliceList {α : Type} (xs : List α) (start stop : Nat) : Option (List α) :=
  if start ≤ stop ∧ stop ≤ xs.length then some ((xs.take stop).drop start) else none

/-- An optional vector, sliced if it is there. -/
def sliceOption {α : Type} (xs : Option (List α)) (start stop : Nat) : Option (Option (List α)) :=
  match xs with
  | none => some none
  | some xs => (sliceList xs start stop).map some

def sliceColumn (start stop : Nat) (c : ResultColumn) : Option ResultColumn := do
  let values ← sliceList c.values start stop
  let stringValues ← sliceOption c.stringValues start stop
  let nullMask ← sliceOption c.nullMask start stop
  pure { c with values, stringValues, nullMask }

/-- `slice_result`; `none` is a panic, on a column that is shorter than the result. -/
def sliceResult (qr : QueryResult) (start stop : Nat) : Option QueryResult := do
  let columns ← qr.columns.mapM (sliceColumn (min start qr.rowCount) (min stop qr.rowCount))
  pure { columns, rowCount := min stop qr.rowCount - min start qr.rowCount }

/-- The text of a cell in `send_data_rows`: `none` for NULL. A number above `2 ^ 60` is shown as a
float if it is the bit pattern of one below `1e15`. -/
def cellText (H : Host) (c : ResultColumn) (row : Nat) : Option String :=
  if ((c.nullMask.bind (·[row]?)).getD false) then none
  else
    match c.stringValues with
    | some texts => some (texts.getD row "")
    | none =>
      let v := c.values.getD row 0
      if 2 ^ 60 < v.toNat ∧ v.toNat % 2 ^ 63 < 0x430C6BF526340000 then some (H.showF64 v)
      else some (toString v.toNat)

/-- Type and size of a column in `send_row_description`. -/
def columnType (c : ResultColumn) : Nat × Int :=
  if c.typeOid ≠ 0 then
    (c.typeOid, if c.typeOid = 25 then -1 else if c.typeOid = 16 then 1 else 8)
  else if c.stringValues.isSome then (25, -1)
  else (20, 8)

end TensorVault.Server
