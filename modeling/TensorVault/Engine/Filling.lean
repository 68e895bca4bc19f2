import TensorVault.Engine.Effect
import TensorVault.Engine.Routing
import TensorVault.Engine.Sidecar
import TensorVault.Sql.Printing

/-!
# Tables filled row by row

COPY and the checkpoint fill an empty table with one INSERT per row, each with a value for every
column. `Filled` says what the table holds after some rows: the cells and NULL flags of the value
texts, and in the string columns their texts. One more INSERT adds one more row (`Filled.push`). A
script of INSERTs fills the table, or it stops at a row that cannot be read (`run_pushRows`).
-/

namespace TensorVault

open Text Sql Writes List

/-- A cell as COPY and the checkpoint write it. -/
def Table.cellAt (t : Table) (c r : Nat) : UInt64 := (t.cell c r).getD 0

/-- The text of a column in a row; without a sidecar there is none. -/
def Table.textAt (t : Table) (c r : Nat) : String := ((t.sidecar c).getD []).getD r ""

variable {c r : Nat} {t : Table} {row : List String} {cat : Catalog} {name : String}

theorem Table.cellAt_eq {col : List UInt64}
    (hcol : t.columns[c]? = some col) : t.cellAt c r = (col[r]?).getD 0 := by
  rw [Table.cellAt, Table.cell, hcol, Option.bind_some]

/-- The table after an INSERT of one row. -/
def pushRow (H : Host) (t : Table) (row : List String) : Table :=
  insertedTable H t ((List.range t.columns.length).zip row) 1

theorem length_pushRow_columns (H : Host) (t : Table) :
    (pushRow H t row).columns.length = t.columns.length := length_insertedTable_columns ..

theorem get_register_pushRow {H : Host} (h : cat.get name = some t) :
    (cat.register (pushRow H t row)).get name = some (pushRow H t row) := by
  obtain rfl : t.name = name := Catalog.name_of_get h
  exact Catalog.get_register_self cat (pushRow H t row)

/-- The value of a column in a row of value texts. -/
def valueAt (row : List String) (c : Nat) : String := row.getD c ""

/-- The contents of a table, as the value texts they were inserted with. -/
structure Filled (H : Host) (t : Table) (rows : List (List String)) : Prop where
  parallel : t.Parallel
  bitmaps : ∀ c bm, t.bitmap c = some bm → bm.length = t.rowCount
  count : t.rowCount = rows.length
  cells : ∀ c < t.columns.length,
    t.columns[c]? = some (rows.map fun row => cellOf H (valueAt row c))
  nulls : ∀ c < t.columns.length, ∀ r < rows.length,
    t.isNull c r = isNullText (valueAt (rows.getD r []) c)
  texts : ∀ c < t.columns.length, t.isStringColumn c = true →
    t.sidecar c = some (rows.map fun row => sidecarText (valueAt row c)) ∨
      rows = [] ∧ t.sidecar c = none

/-- An empty table. -/
theorem filled_nil {H : Host} (ht : t.WellFormed) (hcount : t.rowCount = 0) : Filled H t [] where
  parallel := ht.toParallel
  bitmaps _ _ hbm := ht.bitmap_at hbm
  count := hcount
  cells c hc := by
    have hcol := getElem?_eq_getElem hc
    rw [hcol, length_eq_zero_iff.mp ((ht.cells_at hcol).trans hcount)]
    rfl
  nulls _ _ r hr := absurd hr (Nat.not_lt_zero r)
  texts c _ _ := by
    cases hsc : t.sidecar c with
    | none => exact .inr ⟨rfl, rfl⟩
    | some sc =>
      rw [length_eq_zero_iff.mp ((ht.sidecar_at hsc).trans hcount)]
      exact .inl rfl

section Read

variable {H : Host} {t : Table} {rows : List (List String)}

theorem Filled.cellAt (h : Filled H t rows) (hc : c < t.columns.length)
    (hr : r < rows.length) : t.cellAt c r = cellOf H (valueAt (rows.getD r []) c) := by
  simp only [Table.cellAt_eq (h.cells c hc), getElem?_map, getD_eq_getElem?_getD,
    getElem?_eq_getElem hr, Option.map_some, Option.getD_some]

theorem Filled.textAt (h : Filled H t rows) (hc : c < t.columns.length)
    (hstr : t.isStringColumn c = true) (hr : r < rows.length) :
    t.textAt c r = sidecarText (valueAt (rows.getD r []) c) := by
  rcases h.texts c hc hstr with hsc | ⟨rfl, -⟩
  · simp only [Table.textAt, hsc, Option.getD_some, getD_eq_getElem?_getD, getElem?_map,
      getElem?_eq_getElem hr, Option.map_some]
  · cases hr

end Read

section Push

variable {H : Host} {t : Table} {rows : List (List String)} {row : List String}

theorem at_row (hrow : row.length = t.columns.length) (hc : c < t.columns.length) :
    at_ c ((List.range t.columns.length).zip row) = [valueAt row c] := by
  have hlt : c < row.length := by omega
  rw [← hrow, at_zip_range, valueAt, getD_eq_getElem?_getD, getElem?_eq_getElem hlt]
  rfl

theorem mem_row_lt {w : Nat × String} (hw : w ∈ (List.range t.columns.length).zip row) :
    w.1 < t.columns.length := mem_range.mp (of_mem_zip hw).1

/-- **One more row.** -/
theorem Filled.push (h : Filled H t rows) (hrow : row.length = t.columns.length) :
    Filled H (pushRow H t row) (rows ++ [row]) where
  parallel := parallel_insertedTable h.parallel (fun _ => mem_row_lt)
  bitmaps := by
    intro c bm hbm
    rw [Table.bitmap_eq_some, pushRow,
      insertedTable_nullBitmaps h.parallel fun _ => mem_row_lt] at hbm
    obtain ⟨entry, hentry, hafter⟩ := Option.map_eq_some_iff.mp hbm
    rw [at_row hrow (h.parallel.lt_of_nulls hentry)] at hafter
    show bm.length = t.rowCount + 1
    cases entry with
    | some b =>
      cases hafter
      simp [h.bitmaps c b (Table.bitmap_of_entry hentry)]
    | none =>
      rw [bitmapAfter] at hafter
      split at hafter
      · next hany =>
        rw [dropWhile_of_head_null (by simpa using hany)] at hafter
        cases hafter
        simp
      · cases hafter
  count := by
    show t.rowCount + 1 = _
    rw [h.count, length_append]
    rfl
  cells := by
    intro c hc
    have hc' : c < t.columns.length := by simpa [pushRow] using hc
    rw [pushRow, insertedTable_columns, h.cells c hc', at_row hrow hc']
    simp
  nulls := by
    intro c hc r hr
    have hc' : c < t.columns.length := by simpa [pushRow] using hc
    rw [pushRow, isNull_insertedTable h.parallel (fun _ => mem_row_lt) hc' (h.bitmaps c)
      (by rw [at_row hrow hc']; rintro - ⟨v, hv, hnull⟩; simpa using mem_singleton.mp hv ▸ hnull),
      at_row hrow hc', h.count]
    rcases Nat.lt_or_ge r rows.length with hlt | hge
    · rw [if_pos hlt, h.nulls c hc' r hlt, getD_eq_getElem?_getD, getD_eq_getElem?_getD,
        getElem?_append_left hlt]
    · have hr' : r = rows.length := by
        rw [length_append, length_singleton] at hr
        omega
      subst hr'
      simp
  texts := by
    intro c hc hstr
    have hc' : c < t.columns.length := by simpa [pushRow] using hc
    have hstr' : t.isStringColumn c = true := hstr
    have hnew : newTexts t ((List.range t.columns.length).zip row) c =
        [sidecarText (valueAt row c)] := by
      rw [newTexts, if_pos hstr', at_row hrow hc']
      rfl
    have hlt : c < t.stringColumns.length := by rw [h.parallel.strings]; exact hc'
    left
    rw [Table.sidecar_eq_some, pushRow, insertedTable_stringColumns h.parallel,
      getElem?_eq_getElem hlt, Option.map_some, Option.some_inj, hnew, if_neg (by simp),
      map_append]
    rcases h.texts c hc' hstr' with hold | ⟨rfl, hold⟩
    · rw [Table.sidecar_eq_some, getElem?_eq_getElem hlt, Option.some_inj] at hold
      rw [hold]
      rfl
    · rw [Table.sidecar, getElem?_eq_getElem hlt, Option.join_some] at hold
      have hcount : t.rowCount = 0 := h.count
      rw [hold, hcount]
      rfl

/-- The INSERT of one row succeeds if its values have cells. -/
theorem executeInsert_row (hget : cat.get name = some t) (hrow : row.length = t.columns.length)
    (hvalues : ∀ v ∈ row, (parseValueCell H v).isSome = true) :
    executeInsert H cat { table := name, columns := none, values := [row] } =
      .ok (cat.register (pushRow H t row), 1) := by
  have hwrites : cellWrites (List.range t.columns.length) [row] =
      (List.range t.columns.length).zip row := by simp [cellWrites]
  have hshort :
      [row].any (fun row => row.length < (List.range t.columns.length).length) = false := by
    simp [hrow]
  have hcells : ((List.range t.columns.length).zip row).any (fun w =>
      t.columns.length ≤ w.1 || (parseValueCell H w.2).isNone) = false := by
    rw [any_eq_false]
    intro w hw
    have hlt := mem_row_lt hw
    obtain ⟨cell, hcell⟩ := Option.isSome_iff_exists.mp (hvalues w.2 (of_mem_zip hw).2)
    simp [hcell, Nat.not_le.mpr hlt]
  have htexts : (List.range t.columns.length).any (fun c => (t.sidecar c).isNone &&
      decide (t.rowCount + [row].length <
        (newTexts t ((List.range t.columns.length).zip row) c).length)) = false := by
    rw [any_eq_false]
    intro c hc
    have hlength : (newTexts t ((List.range t.columns.length).zip row) c).length ≤ 1 := by
      unfold newTexts
      split
      · rw [at_row hrow (mem_range.mp hc)]
        simp
      · simp
    simp only [length_singleton, Bool.and_eq_true, decide_eq_true_eq, not_and]
    omega
  have hrows : insertRows H t (List.range t.columns.length) [row] = .ok (pushRow H t row) := by
    unfold insertRows
    simp only [hwrites, hshort, hcells, htexts, Bool.false_eq_true, if_false]
    rfl
  have hlength : (List.range t.columns.length).length = firstRowLength [row] := by
    rw [length_range, ← hrow]
    rfl
  unfold executeInsert
  simp only [hget, insertColumnIndices, hlength, ne_eq, not_true_eq_false, if_false, hrows]
  rfl

end Push

/-! ## Numbers as values -/

section

variable (n : Nat)

theorem not_isWhitespace_of_isDigit {c : Char} (h : c.isDigit = true) : isWhitespace c = false := by
  by_contra hspace
  rw [not_isDigit_of_isWhitespace (by simpa using hspace)] at h
  cases h

theorem trimChars_toString : trimChars (toString n).toList = (toString n).toList :=
  trimChars_of_forall fun _ hc => not_isWhitespace_of_isDigit (isDigit_of_mem_toString n hc)

theorem quotedInner_toString : quotedInner (toString n).toList = none := by
  obtain ⟨d, ds, hds, hd⟩ := exists_toString
  rw [hds]
  unfold quotedInner
  split
  · next heq =>
    rw [(List.cons.inj heq).1] at hd
    cases hd
  · rfl

theorem isNullText_toString : isNullText (toString n) = false := by
  obtain ⟨d, ds, hds, hd⟩ := exists_toString
  have hne : d ≠ 'n' := by
    rintro rfl
    cases hd
  unfold isNullText eqIgnoreAsciiCase trim
  rw [String.toList_ofList, trimChars_toString, hds, map_cons,
    toLower_of_isDigit hd, beq_eq_false_iff_ne]
  intro heq
  exact hne (List.cons.inj heq).1

theorem sidecarText_toString : sidecarText (toString n) = toString n := by
  have hquoted : extractStringLiteral (toString n) = none := by
    simp only [extractStringLiteral, trimChars_toString, quotedInner_toString]
  unfold sidecarText
  rw [isNullText_toString, if_neg (by simp), hquoted]
  simp only [trim, trimChars_toString, String.ofList_toList]

/-- The cell of a number that fits `i64`. -/
theorem parseValueCell_toString (H : Host) {n : Nat} (h : n < 2 ^ 63) :
    parseValueCell H (toString n) = some (UInt64.ofNat n) := by
  obtain ⟨d, ds, hds, hd⟩ := exists_toString
  have hnull : toString n ≠ "NULL" := by
    intro heq
    have := congrArg String.toList heq
    rw [hds] at this
    obtain rfl : d = 'N' := (List.cons.inj this).1
    cases hd
  have hhex : hexInner (toString n).toList = none := by
    rw [hds]
    unfold hexInner
    split
    · next heq =>
      rw [(List.cons.inj heq).1] at hd
      cases hd
    · rfl
  have hcontains : ∀ c : Char, c.isDigit = false → (toString n).toList.contains c = false := by
    intro c hc
    rw [contains_eq_mem, decide_eq_false_iff_not]
    intro hmem
    rw [isDigit_of_mem_toString n hmem] at hc
    cases hc
  have hnumber : numberCell H (toString n) = UInt64.ofNat n := by
    have hparse := parseI64_toString n
    rw [if_pos h] at hparse
    unfold numberCell
    simp only [hcontains '.' rfl, hcontains 'e' rfl, hcontains 'E' rfl, Bool.or_self,
      Bool.false_eq_true, if_false, hparse, cellOfInt]
    congr 1
    omega
  simp only [parseValueCell, trimChars_toString, String.ofList_toList, if_neg hnull,
    quotedInner_toString, hhex, hnumber]

end

/-! ## String literals as values -/

theorem sidecarText_literal {s : String} :
    sidecarText ("'" ++ s ++ "'") = String.ofList (replacePair '\'' '\'' ['\''] s.toList) := by
  rw [sidecarText, isNullText_literal, if_neg (by simp),
    extractStringLiteral_of_quotedInner quotedInner_literal]

/-! ## Scripts of INSERTs -/

section

open Lexer QueryEngine

variable {H : Host} {F : Frontend} {name : String} {α : Type} {items : List α}
  {Good : α → Prop}

section Text

variable (hhost : AsciiHost H) {toks : List Token} (hlexes : Lexed H name.toList toks)
  {text value : α → String}

include hhost hlexes

variable {tail : List Char}

/-- An INSERT of values that can be read. -/
theorem tableKind_rowInsertText (htoks : NameTokens name toks)
    (hread : ∀ x ∈ items, ∃ tok, ReadsAs H (text x) tok (value x)) {tailToks : List Token}
    (htail : Lexed H tail tailToks) (hcomma : tailToks.head? ≠ some .comma) :
    tableKind H F (String.ofList (rowInsertText name (items.map text) tail)) =
      .dml (.insert { table := name, columns := none, values := [items.map value] }) := by
  have : Nonempty Token := ⟨.eof⟩
  choose! tok htok using hread
  have hcells : ∀ x ∈ items.map fun x => (⟨text x, tok x, value x⟩ : Cell),
      ReadsAs H x.text x.tok x.value := by
    intro x hx
    obtain ⟨y, hy, rfl⟩ := mem_map.mp hx
    exact htok y hy
  have hddl := parseDdl_rowInsertText hhost hlexes hcells htail
  have hdml := parseDml_rowInsertText hhost hlexes htoks hcells htail hcomma
  simp only [map_map, Function.comp_def] at hddl hdml
  simp only [tableKind, hddl, hdml]

variable (F items Good) in
/-- An INSERT with a value that cannot be read. -/
theorem tableKind_rowInsertText_error
    (hread : ∀ x ∈ items, Good x → ∃ tok, ReadsAs H (text x) tok (value x))
    (hunread : ∀ x ∈ items, ¬ Good x → Unreadable H (text x)) (hbad : ∃ x ∈ items, ¬ Good x) :
    ∃ err, tableKind H F (String.ofList (rowInsertText name (items.map text) tail)) =
      .fail err := by
  have htexts : ∀ s ∈ items.map text, Unreadable H s ∨ ∃ toks, Lexed H s.toList toks := by
    intro s hs
    obtain ⟨x, hx, rfl⟩ := mem_map.mp hs
    by_cases hgood : Good x
    · obtain ⟨tok, htok⟩ := hread x hx hgood
      exact .inr ⟨_, htok.lexes⟩
    · exact .inl (hunread x hx hgood)
  obtain ⟨x, hx, hx'⟩ := hbad
  obtain ⟨err, herr⟩ := tokenize_rowInsertText_error hhost hlexes htexts
    ⟨_, mem_map_of_mem hx, hunread x hx hx'⟩ tail
  refine ⟨.parse err, ?_⟩
  simp only [tableKind, parseDdl, herr, bind, Except.bind]

end Text

variable {e : QueryEngine}

/-- The INSERT of one row, executed. -/
theorem executeInner_insertRow {n : Nat} {sql : String}
    (hroute : innerRoute H F sql = .statement none (.dml (.insert
      { table := name, columns := none, values := [row] }))) (hget : e.catalog.get name = some t)
    (hrow : row.length = t.columns.length)
      (hvalues : ∀ v ∈ row, (parseValueCell H v).isSome = true) :
    ∃ e', executeInner H F n e sql none = some (e', .ok (.affected 1)) ∧
      e'.catalog = e.catalog.register (pushRow H t row) ∧ e'.txnManager = e.txnManager := by
  have hinsert :
      executeDml H e.catalog (.insert { table := name, columns := none, values := [row] }) =
      .ok (e.catalog.register (pushRow H t row), 1) := executeInsert_row hget hrow hvalues
  obtain ⟨_, _, hframe⟩ := syncTemporal_frame H
    { e with catalog := e.catalog.register (pushRow H t row) } e.catalog
    (.insert { table := name, columns := none, values := [row] })
  rw [executeInner_dml hroute, executeDmlStmt, hinsert]
  simp only [hframe]
  exact ⟨_, rfl, rfl, rfl⟩

variable (H name items Good) in
/-- Statements that each insert a row, or fail. `I` is an invariant of the engine and `Q` one of the
table. -/
theorem run_pushRows (step : QueryEngine → String → Option QueryEngine) (text : α → String)
    (row : α → List String) (I : QueryEngine → Prop) (Q : Table → Prop)
    (hQ : ∀ {u} x, Q u → (row x).length = u.columns.length ∧ Q (pushRow H u (row x)))
    (hgood : ∀ x ∈ items, Good x → ∀ {e u}, I e → e.catalog.get name = some u → Q u →
      ∃ e', step e (text x) = some e' ∧ I e' ∧ e'.catalog.get name = some (pushRow H u (row x)))
    (hbad : ∀ x ∈ items, ¬ Good x → ∀ {e}, I e → step e (text x) = none) {u : Table}
    {done : List (List String)} (he : I e) (hget : e.catalog.get name = some u) (hu : Q u)
    (hfilled : Filled H u done) :
    ((∀ x ∈ items, Good x) ∧ ∃ e' u', Run.run step e (items.map text) = some e' ∧ I e' ∧
      e'.catalog.get name = some u' ∧ Q u' ∧ Filled H u' (done ++ items.map row)) ∨
    ((∃ x ∈ items, ¬ Good x) ∧ Run.run step e (items.map text) = none) := by
  induction items generalizing e u done with
  | nil => exact .inl ⟨by simp, e, u, rfl, he, hget, hu, by simpa using hfilled⟩
  | cons x items ih =>
    by_cases hx : Good x
    · obtain ⟨e₁, hstep, he₁, hget₁⟩ := hgood x mem_cons_self hx he hget hu
      rw [map_cons, Run.run_cons_of_step hstep]
      rcases ih (forall_mem_cons.mp hgood).2
        (forall_mem_cons.mp hbad).2 he₁ hget₁ (hQ x hu).2
        (hfilled.push (hQ x hu).1) with
          ⟨hall, e', u', hrun, he', hget', hu', hfilled'⟩ | ⟨hex, hrun⟩
      · refine .inl ⟨forall_mem_cons.mpr ⟨hx, hall⟩, e', u', hrun, he', hget', hu', ?_⟩
        rwa [append_assoc] at hfilled'
      · exact .inr ⟨exists_mem_cons_of_exists hex, hrun⟩
    · refine .inr ⟨exists_mem_cons_of _ hx, ?_⟩
      rw [map_cons, Run.run, hbad x mem_cons_self hx he]

end

end TensorVault
