import TensorVault.Engine.Filling

/-!
# Checkpoints

`Checkpoint::save` writes for each table a CREATE TABLE and one INSERT per row. Executed again it
gives back less than was saved: SMALLINT and TINYINT are written INT, a word of `2 ^ 63` and more
stops the tokenizer, and a string literal comes back as the hash of its text. `Savable` is what a
table must satisfy for none of this to matter (`restored_iff`).
-/

namespace TensorVault

variable {t : Table} {c r : Nat} {ty : ColumnType}

open Text Sql Lexer QueryEngine List Option

variable {H : Host} {tok : Token} {rest : List Token}

/-! ## What is written -/

/-- `ColumnType::type_name`. -/
def typeName : ColumnType → String
  | .int | .smallInt | .tinyInt => "INT"
  | .bigInt => "BIGINT"
  | .varchar _ => "VARCHAR"
  | .nvarchar _ => "NVARCHAR"
  | .text => "TEXT"
  | .float => "FLOAT"
  | .real => "REAL"
  | .decimal _ _ => "DECIMAL"
  | .numeric _ _ => "NUMERIC"
  | .boolean => "BOOLEAN"
  | .bit => "BIT"
  | .date => "DATE"
  | .timestamp => "TIMESTAMP"
  | .json => "JSON"
  | .array _ => "ARRAY"
  | .uuid => "UUID"
  | .bytea => "BYTEA"
  | .enum _ => "ENUM"

/-- The type of a column with its parameters. -/
def typeText : ColumnType → String
  | .varchar (some n) => "VARCHAR(" ++ toString n ++ ")"
  | .nvarchar (some n) => "NVARCHAR(" ++ toString n ++ ")"
  | .decimal (some p) (some s) => "DECIMAL(" ++ toString p ++ "," ++ toString s ++ ")"
  | .decimal (some p) none => "DECIMAL(" ++ toString p ++ ")"
  | .numeric (some p) (some s) => "NUMERIC(" ++ toString p ++ "," ++ toString s ++ ")"
  | .numeric (some p) none => "NUMERIC(" ++ toString p ++ ")"
  | ty => typeName ty

/-- The type of a column: from the schema, or guessed from the sidecar if there is none. -/
def columnType (t : Table) (c : Nat) : ColumnType :=
  match t.schema with
  | some s => ((s.columns[c]?).map ColumnSchema.colType).getD .bigInt
  | none => if (t.sidecar c).isSome then .varchar none else .bigInt

/-- `f64::is_finite`: not all bits of the exponent are set. -/
def isFinite (bits : UInt64) : Bool := (bits >>> 52) &&& 0x7FF != 0x7FF

/-- The sidecar text of a cell, if there is one. -/
def Table.text? (t : Table) (c r : Nat) : Option String := (t.sidecar c).bind fun sc => sc[r]?

/-- A cell as it is written. -/
def savedValue (H : Host) (t : Table) (c r : Nat) : String :=
  if t.isNull c r then "NULL"
  else
    match t.text? c r with
    | some s => String.ofList ('\'' :: (doubled s.toList ++ ['\'']))
    | none =>
      if isFloatType (columnType t c) && isFinite (t.cellAt c r) then H.showF64 (t.cellAt c r)
      else toString (t.cellAt c r)

def savedColumn (t : Table) (c : Nat) (name : String) : String :=
  name ++ " " ++ typeText (columnType t c)

def savedCreate (t : Table) : String :=
  String.ofList (createText t.name (t.columnNames.zipIdx.map fun p => savedColumn t p.2 p.1))

def savedInsert (H : Host) (t : Table) (r : Nat) : String :=
  String.ofList (rowInsertText t.name
    ((List.range t.columns.length).map fun c => savedValue H t c r) [';'])

/-- The statements of a table. -/
def savedTable (H : Host) (t : Table) : List String :=
  savedCreate t :: (List.range t.rowCount).map (savedInsert H t)

/-- `Checkpoint::save`: the statements for the tables, in the order in which the map is iterated. -/
def save (H : Host) (cat : Catalog) (names : List String) : List String :=
  (names.filter (· ≠ "__dummy__")).flatMap fun name =>
    match cat.get name with
    | some t => savedTable H t
    | none => []

/-! ## Types -/

/-- Integer, boolean and string types, with lengths that the parser can have read. -/
def plainType : ColumnType → Bool
  | .int | .bigInt | .smallInt | .tinyInt | .boolean | .bit | .text => true
  | .varchar n | .nvarchar n => (n.getD 0) < 2 ^ 32
  | _ => false

/-- The type that is read back. -/
def readType : ColumnType → ColumnType
  | .smallInt | .tinyInt => .int
  | ty => ty

/-- The tokens of a type. -/
def typeToks : ColumnType → List Token
  | .varchar (some n) => [.keyword "VARCHAR", .lparen, .int n, .rparen]
  | .nvarchar (some n) => [.keyword "NVARCHAR", .lparen, .int n, .rparen]
  | ty => [.keyword (typeName ty)]

theorem typeParams_of_endsColumn (h : endsColumn tok) :
    typeParams H (tok :: rest) = .ok ((none, none), tok :: rest) := by
  rcases h with rfl | rfl <;> rfl

theorem toU32_of_lt {n : Nat} (h : n < 2 ^ 32) : toU32 n = n := by
  unfold toU32
  omega

theorem parseType_typeToks (hty : plainType ty = true) (htok : endsColumn tok) :
    parseType H (typeToks ty ++ tok :: rest) = .ok (readType ty, tok :: rest) := by
  have hbare : ∀ k ty', typeOfName k none none = .ok ty' →
      parseType H ([.keyword k] ++ tok :: rest) = .ok (ty', tok :: rest) := by
    intro k ty' hname
    simp only [singleton_append, parseType, typeParams_of_endsColumn htok, pure, Except.pure,
      bind, Except.bind, hname]
  have hlen : ∀ (k : String) (n : Nat) ty', n < 2 ^ 32 → typeOfName k (some n) none = .ok ty' →
      parseType H ([.keyword k, .lparen, .int n, .rparen] ++ tok :: rest) =
        .ok (ty', tok :: rest) := by
    intro k n ty' hn hname
    simp only [cons_append, nil_append, parseType, typeParams, closeParams, pure, Except.pure,
      bind, Except.bind, toU32_of_lt hn, hname]
  cases ty with
  | varchar n =>
    cases n with
    | none => exact hbare "VARCHAR" _ rfl
    | some n => exact hlen "VARCHAR" n _ (by simpa [plainType] using hty) rfl
  | nvarchar n =>
    cases n with
    | none => exact hbare "NVARCHAR" _ rfl
    | some n => exact hlen "NVARCHAR" n _ (by simpa [plainType] using hty) rfl
  | int | bigInt | smallInt | tinyInt | boolean | bit | text => exact hbare _ _ rfl
  | _ => cases hty

theorem lexes_typeText (hhost : AsciiHost H) (hty : plainType ty = true) :
    Lexed H (typeText ty).toList (typeToks ty) := by
  have hlen : ∀ {k : String} (n : Nat), n < 2 ^ 32 → Lexed H k.toList [.keyword k] →
      Lexed H (k.toList ++ '(' :: ((toString n).toList ++ [')']))
        [.keyword k, .lparen, .int n, .rparen] := by
    intro k n hn hk
    exact lexes_append hhost hk
      (lexes_lparen (lexes_append hhost (readsAs_number (by omega)).lexes (lexes_rparen .nil)
        (joins_separator rfl)))
      (joins_separator rfl)
  have hvarchar : Lexed H "VARCHAR".toList [.keyword "VARCHAR"] :=
    lexes_keyword hhost (by decide) (by decide)
  have hnvarchar : Lexed H "NVARCHAR".toList [.keyword "NVARCHAR"] :=
    lexes_keyword hhost (by decide) (by decide)
  cases ty with
  | varchar n =>
    cases n with
    | none => exact hvarchar
    | some n =>
      have htext : (typeText (.varchar (some n))).toList =
          "VARCHAR".toList ++ '(' :: ((toString n).toList ++ [')']) := by
        simp only [typeText, String.toList_append, append_assoc]
        rfl
      rw [htext]
      exact hlen n (by simpa [plainType] using hty) hvarchar
  | nvarchar n =>
    cases n with
    | none => exact hnvarchar
    | some n =>
      have htext : (typeText (.nvarchar (some n))).toList =
          "NVARCHAR".toList ++ '(' :: ((toString n).toList ++ [')']) := by
        simp only [typeText, String.toList_append, append_assoc]
        rfl
      rw [htext]
      exact hlen n (by simpa [plainType] using hty) hnvarchar
  | int | bigInt | smallInt | tinyInt | boolean | bit | text =>
    exact lexes_keyword hhost (by decide) (by decide)
  | _ => cases hty

/-! ## Tables -/

/-- What the checkpoint relies on: parallel vectors, a schema for the columns, and names that are
read as what they are. -/
structure Tidy (H : Host) (t : Table) : Prop where
  parallel : t.Parallel
  schema : ∃ s, t.schema = some s ∧ s.columns.map ColumnSchema.name = t.columnNames ∧
    ∀ col ∈ s.columns, plainType col.colType = true
  columnNames : ∀ col ∈ t.columnNames, Lexes (nextToken H) col.toList [.ident col]
  name : ∃ toks, Lexes (nextToken H) t.name.toList toks ∧ NameTokens t.name toks ∧
    toks.head? ≠ some (.keyword "IF")

section Tidy

variable {t : Table} (ht : Tidy H t)
include ht

theorem Tidy.plainType_columnType (hc : c < t.columns.length) :
    plainType (columnType t c) = true := by
  obtain ⟨s, hs, hnames, htypes⟩ := ht.schema
  have hlt : c < s.columns.length := by
    rw [← length_map (f := ColumnSchema.name), hnames, ht.parallel.names]
    exact hc
  rw [columnType, hs]
  simp only [getElem?_eq_getElem hlt, map_some, getD_some]
  exact htypes _ (getElem_mem hlt)

/-- The columns as they are written and read. -/
def savedColumns (t : Table) : List Column :=
  t.columnNames.zipIdx.map fun p =>
    { text := savedColumn t p.2 p.1, name := p.1, typeToks := typeToks (columnType t p.2),
      colType := readType (columnType t p.2) }

theorem Tidy.reads_savedColumns (hhost : AsciiHost H) : ∀ x ∈ savedColumns t, x.Reads H := by
  intro x hx
  obtain ⟨⟨name, c⟩, hp, rfl⟩ := mem_map.mp hx
  have hget := mem_zipIdx_iff_getElem?.mp hp
  have hc : c < t.columns.length := by
    rw [← ht.parallel.names]
    exact (List.getElem?_eq_some_iff.mp hget).1
  have hty := ht.plainType_columnType hc
  refine ⟨?_, fun tok rest htok => parseType_typeToks hty htok⟩
  have htext : (savedColumn t c name).toList = name.toList ++
      ' ' :: (typeText (columnType t c)).toList := by
    simp only [savedColumn, String.toList_append, append_assoc]
    rfl
  show Lexed H (savedColumn t c name).toList _
  rw [htext]
  exact lexes_append hhost (ht.columnNames name (mem_of_getElem? hget))
    (lexes_space (lexes_typeText hhost hty)) (joins_separator rfl)

end Tidy

/-! ## Values -/

/-- The value a cell is read back as. -/
def readValue (t : Table) (c r : Nat) : String :=
  if t.isNull c r then "NULL"
  else
    match t.text? c r with
    | some s => "'" ++ s ++ "'"
    | none => toString (t.cellAt c r)

/-- The cell is written in a way that the tokenizer accepts. -/
def Readable (t : Table) (c r : Nat) : Prop :=
  t.isNull c r = false → t.text? c r = none → (t.cellAt c r).toNat < 2 ^ 63

theorem not_isFloatType_of_plainType (h : plainType ty = true) : isFloatType ty = false := by
  cases ty <;> first | rfl | cases h

theorem savedValue_eq_number (hty : plainType (columnType t c) = true)
    (hnull : t.isNull c r = false) (htext : t.text? c r = none) :
    savedValue H t c r = toString (t.cellAt c r).toNat := by
  simp only [savedValue, hnull, htext, not_isFloatType_of_plainType hty, Bool.false_and,
    Bool.false_eq_true, if_false]
  rfl

theorem exists_readsAs_savedValue (hhost : AsciiHost H) (hty : plainType (columnType t c) = true)
    (h : Readable t c r) : ∃ tok, ReadsAs H (savedValue H t c r) tok (readValue t c r) := by
  cases hnull : t.isNull c r with
  | true =>
    simp only [savedValue, readValue, hnull, if_true]
    exact ⟨_, readsAs_null hhost⟩
  | false =>
    cases htext : t.text? c r with
    | some s =>
      simp only [savedValue, readValue, hnull, htext, Bool.false_eq_true, if_false]
      exact ⟨_, readsAs_quoted⟩
    | none =>
      rw [savedValue_eq_number hty hnull htext]
      simp only [readValue, hnull, htext, Bool.false_eq_true, if_false]
      exact ⟨_, readsAs_number (h hnull htext)⟩

theorem unreadable_savedValue (hty : plainType (columnType t c) = true) (h : ¬ Readable t c r) :
    Unreadable H (savedValue H t c r) := by
  unfold Readable at h
  simp only [Classical.not_imp] at h
  obtain ⟨hnull, htext, hlarge⟩ := h
  rw [savedValue_eq_number hty hnull htext]
  exact unreadable_number hlarge

/-- Every value that is read back has a cell. -/
theorem parseValueCell_readValue (h : Readable t c r) :
    parseValueCell H (readValue t c r) = some (
      if t.isNull c r then 0
      else match t.text? c r with
        | some s => H.xxh3 s
        | none => t.cellAt c r) := by
  cases hnull : t.isNull c r with
  | true =>
    simp only [readValue, hnull, if_true]
    rfl
  | false =>
    cases htext : t.text? c r with
    | some s =>
      simp only [readValue, hnull, htext, Bool.false_eq_true, if_false]
      exact parseValueCell_literal
    | none =>
      simp only [readValue, hnull, htext, Bool.false_eq_true, if_false]
      have hparse := parseValueCell_toString H (h hnull htext)
      rwa [UInt64.ofNat_toNat] at hparse

theorem isNullText_readValue : isNullText (readValue t c r) = t.isNull c r := by
  cases hnull : t.isNull c r with
  | true =>
    simp only [readValue, hnull, if_true]
    rfl
  | false =>
    cases htext : t.text? c r with
    | some s =>
      simp only [readValue, hnull, htext, Bool.false_eq_true, if_false]
      exact isNullText_literal
    | none =>
      simp only [readValue, hnull, htext, Bool.false_eq_true, if_false]
      exact isNullText_toString _

/-! ## One table -/

/-- The values a row is read back as. -/
def readRow (t : Table) (r : Nat) : List String :=
  (List.range t.columns.length).map fun c => readValue t c r

theorem valueAt_readRow (hc : c < t.columns.length) :
    valueAt (readRow t r) c = readValue t c r := by
  rw [valueAt, readRow, getD_eq_getElem?_getD, getElem?_map, getElem?_range hc]
  rfl

/-- The same columns, rows, NULL flags and strings; cells and strings count where they are not
NULL. -/
structure Restored (t u : Table) : Prop where
  columnNames : u.columnNames = t.columnNames
  types : ∀ c < t.columns.length, columnType u c = columnType t c
  rowCount : u.rowCount = t.rowCount
  nulls : ∀ c < t.columns.length, ∀ r < t.rowCount, u.isNull c r = t.isNull c r
  cells : ∀ c < t.columns.length, ∀ r < t.rowCount, t.isNull c r = false →
    u.cellAt c r = t.cellAt c r
  texts : ∀ c < t.columns.length, t.isStringColumn c = true → ∀ r < t.rowCount,
    t.isNull c r = false → u.textAt c r = t.textAt c r

/-- The condition on a cell that is not NULL. One with a text holds the hash of the text, and in a
string column the text has no quote next to a quote; one without a text is no string and its word is
below `2 ^ 63`. -/
def CellSavable (H : Host) (t : Table) (c r : Nat) : Prop :=
  match t.text? c r with
  | some s => t.cellAt c r = H.xxh3 s ∧
      (t.isStringColumn c = true → hasPair '\'' '\'' s.toList = false)
  | none => t.isStringColumn c = false ∧ (t.cellAt c r).toNat < 2 ^ 63

instance (H : Host) (t : Table) (c r : Nat) : Decidable (CellSavable H t c r) :=
  match h : t.text? c r with
  | some s => decidable_of_iff (t.cellAt c r = H.xxh3 s ∧
      (t.isStringColumn c = true → hasPair '\'' '\'' s.toList = false)) (by rw [CellSavable, h])
  | none => decidable_of_iff (t.isStringColumn c = false ∧ (t.cellAt c r).toNat < 2 ^ 63)
      (by rw [CellSavable, h])

/-- The condition on a table. -/
structure Savable (H : Host) (t : Table) : Prop where
  types : ∀ c < t.columns.length, columnType t c ≠ .smallInt ∧ columnType t c ≠ .tinyInt
  cells : ∀ c < t.columns.length, ∀ r < t.rowCount, t.isNull c r = false → CellSavable H t c r

theorem CellSavable.readable (h : t.isNull c r = false → CellSavable H t c r) : Readable t c r := by
  intro hnull htext
  have hcell := h hnull
  rw [CellSavable, htext] at hcell
  exact hcell.2

theorem textAt_eq : t.textAt c r = (t.text? c r).getD "" := by
  unfold Table.textAt Table.text?
  cases t.sidecar c with
  | none => simp
  | some sc => simp [getD_eq_getElem?_getD]

theorem readType_eq_self_iff : readType ty = ty ↔ ty ≠ .smallInt ∧ ty ≠ .tinyInt := by
  cases ty <;> simp [readType]

section Restored

variable {t u : Table}

/-- **What is read back of a table**, for the table filled from its statements. -/
theorem restored_iff (hfilled : Filled H u ((List.range t.rowCount).map (readRow t)))
    (hlen : u.columns.length = t.columns.length) (hnames : u.columnNames = t.columnNames)
    (htypes : ∀ c < t.columns.length, columnType u c = readType (columnType t c))
    (hstring : ∀ c < t.columns.length, u.isStringColumn c = t.isStringColumn c)
    (hread : ∀ c < t.columns.length, ∀ r < t.rowCount, Readable t c r) :
    Restored t u ↔ Savable H t := by
  have hcount : u.rowCount = t.rowCount := by simpa using hfilled.count
  have hlt : ∀ r < t.rowCount, r < ((List.range t.rowCount).map (readRow t)).length := by simp
  have hvalue : ∀ c < t.columns.length, ∀ r < t.rowCount,
      valueAt (((List.range t.rowCount).map (readRow t)).getD r []) c = readValue t c r := by
    intro c hc r hr
    rw [getD_eq_getElem?_getD, getElem?_map, getElem?_range hr, map_some,
      getD_some, valueAt_readRow hc]
  have hnull : ∀ c < t.columns.length, ∀ r < t.rowCount, u.isNull c r = t.isNull c r := by
    intro c hc r hr
    rw [hfilled.nulls c (by omega) r (hlt r hr), hvalue c hc r hr, isNullText_readValue]
  have hcell : ∀ c < t.columns.length, ∀ r < t.rowCount, t.isNull c r = false →
      u.cellAt c r = match t.text? c r with
        | some s => H.xxh3 s
        | none => t.cellAt c r := by
    intro c hc r hr hnull
    rw [hfilled.cellAt (by omega) (hlt r hr), hvalue c hc r hr, cellOf,
      parseValueCell_readValue (hread c hc r hr), hnull]
    rfl
  have htext : ∀ c < t.columns.length, t.isStringColumn c = true → ∀ r < t.rowCount,
      t.isNull c r = false → u.textAt c r = match t.text? c r with
        | some s => String.ofList (replacePair '\'' '\'' ['\''] s.toList)
        | none => toString (t.cellAt c r) := by
    intro c hc hstr r hr hnull
    rw [hfilled.textAt (by omega) ((hstring c hc).trans hstr) (hlt r hr),
      hvalue c hc r hr, readValue, hnull]
    cases t.text? c r with
    | some s => exact sidecarText_literal
    | none => exact sidecarText_toString _
  constructor
  · intro h
    refine ⟨fun c hc => ?_, fun c hc r hr hn => ?_⟩
    · rw [← readType_eq_self_iff, ← htypes c hc]
      exact h.types c hc
    · have hcells := h.cells c hc r hr hn
      rw [hcell c hc r hr hn] at hcells
      have htexts := fun hstr => (htext c hc hstr r hr hn).symm.trans (h.texts c hc hstr r hr hn)
      unfold CellSavable
      cases hs : t.text? c r with
      | some s =>
        rw [hs] at hcells
        refine ⟨hcells.symm, fun hstr => ?_⟩
        have := htexts hstr
        rw [textAt_eq, hs] at this
        rw [← replacePair_eq_self_iff (c := '\'')]
        simpa using congrArg String.toList this
      | none =>
        refine ⟨?_, hread c hc r hr hn hs⟩
        by_contra hstr
        have := htexts (by simpa using hstr)
        rw [textAt_eq, hs] at this
        exact toString_ne_nil (congrArg String.toList this)
  · intro h
    refine ⟨hnames, fun c hc => ?_, hcount, hnull, fun c hc r hr hn => ?_,
      fun c hc hstr r hr hn => ?_⟩
    · rw [htypes c hc]
      exact readType_eq_self_iff.mpr (h.types c hc)
    · have hs := h.cells c hc r hr hn
      rw [hcell c hc r hr hn]
      unfold CellSavable at hs
      cases htxt : t.text? c r with
      | some s =>
        rw [htxt] at hs
        exact hs.1.symm
      | none => rfl
    · have hs := h.cells c hc r hr hn
      rw [htext c hc hstr r hr hn, textAt_eq]
      unfold CellSavable at hs
      cases htxt : t.text? c r with
      | some s =>
        rw [htxt] at hs
        simp only [replacePair_eq_self_iff.mpr (hs.2 hstr), String.ofList_toList, getD_some]
      | none =>
        rw [htxt, hstr] at hs
        cases hs.1

end Restored

end TensorVault
