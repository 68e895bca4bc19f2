import TensorVault.Table.Basic
import TensorVault.Sql.Lexer

/-!
# Value texts and cells

A DML statement carries its values as text. `parseValueCell` turns it into the 64-bit cell, and
`extractStringLiteral` into the text of the sidecar. They unescape differently: the cell hashes the
text between the quotes as it stands, the sidecar text has `''` replaced once more.
-/

namespace TensorVault

variable {inner : List Char}

open Text Sql List

/-! ## Literals -/

/-- The text between the quotes of a trimmed `'...'`. -/
def quotedInner : List Char → Option (List Char)
  | '\'' :: rest => if rest.getLast? = some '\'' then some rest.dropLast else none
  | _ => none

/-- The text between the quotes of a trimmed `x'...'`. -/
def hexInner : List Char → Option (List Char)
  | 'x' :: rest => quotedInner rest
  | _ => none

/-- `extract_string_literal`: the sidecar text of a string literal. -/
def extractStringLiteral (s : String) : Option String :=
  match quotedInner (trimChars s.toList) with
  | some inner => some (String.ofList (replacePair '\'' '\'' ['\''] inner))
  | none => none

/-- Whether a value text is the literal `NULL`, in any case. -/
def isNullText (s : String) : Bool := eqIgnoreAsciiCase (trim s) "null"

/-! ## Hex literals -/

/-- `u8::from_str_radix(_, 16)` on two characters; a leading `+` is a sign. -/
def radix16 (a b : Char) : Option UInt8 :=
  if a = '+' then (hexDigit b).map UInt8.ofNat
  else match hexDigit a, hexDigit b with
    | some hi, some lo => some (UInt8.ofNat (16 * hi + lo))
    | _, _ => none

/-- The bytes of a hex text, cut every two bytes of UTF-8. Pieces that are not hex are skipped;
a cut inside a character or past the end is a panic. -/
def hexPairs : List Char → Option (List UInt8)
  | [] => some []
  | [c] => if utf8Width c = 2 then some [] else none
  | c :: d :: rest =>
    if utf8Width c = 1 then
      if utf8Width d = 1 then (hexPairs rest).map ((radix16 c d).toList ++ ·) else none
    else if utf8Width c = 2 then hexPairs (d :: rest)
    else none

/-- `u64::from_le_bytes` of the first eight bytes, padded with zeros. -/
def leCell (bytes : List UInt8) : UInt64 :=
  (bytes.take 8).foldr (fun b acc => acc * 256 + b.toUInt64) 0

/-! ## Cells -/

/-- The unquoted forms of `parse_value_cell`: float, then `i64`, then `u64`, then a hash. -/
def numberCell (H : Host) (trimmed : String) : UInt64 :=
  let cs := trimmed.toList
  let float := if cs.contains '.' || cs.contains 'e' || cs.contains 'E' then H.parseF64 trimmed
    else none
  match float with
  | some bits => bits
  | none =>
    match parseI64 trimmed with
    | some n => cellOfInt n
    | none =>
      match parseU64 trimmed with
      | some n => n
      | none => H.xxh3 trimmed

/-- `parse_value_cell`. `none` is the panic of the hex branch. -/
def parseValueCell (H : Host) (s : String) : Option UInt64 :=
  let cs := trimChars s.toList
  if String.ofList cs = "NULL" then some 0
  else match quotedInner cs with
    | some inner => some (H.xxh3 (String.ofList inner))
    | none =>
      match hexInner cs with
      | some hex => (hexPairs hex).map leCell
      | none => some (numberCell H (String.ofList cs))

/-- The cell a value text becomes, where it does not panic. -/
def cellOf (H : Host) (v : String) : UInt64 := (parseValueCell H v).getD 0

/-- The fallback of `default_cell_for_type`. -/
def typeDefaultCell (H : Host) : ColumnType → UInt64
  | .varchar _ | .nvarchar _ | .text | .json | .array _ | .bytea | .enum _ => H.xxh3 ""
  | _ => 0

/-- `default_cell_for_type`: the cell existing rows get from `ADD COLUMN`. -/
def defaultCellForType (H : Host) (col : ColumnDef) : UInt64 :=
  match col.default with
  | none => typeDefaultCell H col.colType
  | some text =>
    let cs := trimChars text.toList
    match quotedInner cs with
    | some inner => H.xxh3 (String.ofList inner)
    | none =>
      match parseI64 (String.ofList cs) with
      | some n => cellOfInt n
      | none =>
        match H.parseF64 (String.ofList cs) with
        | some bits => bits
        | none =>
          if eqIgnoreAsciiCase (String.ofList cs) "null" then 0
          else typeDefaultCell H col.colType

/-! ## String literals seen by both functions -/

theorem quotedInner_eq_some {cs : List Char} (h : quotedInner cs = some inner) :
    cs = '\'' :: (inner ++ ['\'']) := by
  unfold quotedInner at h
  split at h
  · next rest =>
    split at h
    · next hlast =>
      cases h
      obtain ⟨pre, hpre⟩ := getLast?_eq_some_iff.mp hlast
      rw [hpre, dropLast_concat]
    · cases h
  · cases h

theorem quotedInner_quoted : quotedInner ('\'' :: (inner ++ ['\''])) = some inner := by
  simp [quotedInner]

variable {s : String} {H : Host}

/-- A quoted text is not the word `NULL`. -/
theorem isNullText_of_quotedInner (h : quotedInner (trimChars s.toList) = some inner) :
    isNullText s = false := by
  have hcs := quotedInner_eq_some h
  unfold isNullText eqIgnoreAsciiCase trim
  rw [String.toList_ofList, hcs, map_cons]
  rfl

/-- The cell of a string literal hashes the text between the quotes. -/
theorem parseValueCell_of_quotedInner (h : quotedInner (trimChars s.toList) = some inner) :
    parseValueCell H s = some (H.xxh3 (String.ofList inner)) := by
  have hcs := quotedInner_eq_some h
  have hne : String.ofList (trimChars s.toList) ≠ "NULL" := by
    intro heq
    have := congrArg String.toList heq
    rw [String.toList_ofList, hcs] at this
    simp at this
  simp only [parseValueCell, if_neg hne, h]

theorem extractStringLiteral_of_quotedInner (h : quotedInner (trimChars s.toList) = some inner) :
    extractStringLiteral s = some (String.ofList (replacePair '\'' '\'' ['\''] inner)) := by
  simp only [extractStringLiteral, h]

theorem quotedInner_literal : quotedInner (trimChars ("'" ++ s ++ "'").toList) = some s.toList := by
  have htext : ("'" ++ s ++ "'").toList = '\'' :: (s.toList ++ ['\'']) := by
    simp only [String.toList_append]
    rfl
  rw [htext, trimChars_eq_self rfl rfl, quotedInner_quoted]

theorem parseValueCell_literal : parseValueCell H ("'" ++ s ++ "'") = some (H.xxh3 s) := by
  rw [parseValueCell_of_quotedInner quotedInner_literal, String.ofList_toList]

theorem isNullText_literal : isNullText ("'" ++ s ++ "'") = false :=
  isNullText_of_quotedInner quotedInner_literal

end TensorVault
