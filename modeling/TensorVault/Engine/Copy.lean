import TensorVault.Engine.Filling
import TensorVault.Engine.ScannerSafety

/-!
# COPY out and in again

`COPY t TO f` writes one line per row, each cell as the decimal of its 64-bit word, and `COPY u FROM
f` executes an INSERT for every line. NULL flags and texts are lost, and a word of `2 ^ 63` and more
stops the tokenizer when it is read. `copyRoundTrip_iff` is the exact condition.
-/

namespace TensorVault

open Text Sql Lexer QueryEngine List

variable {H : Host}

/-! ## The file -/

/-- The cells of a row as COPY writes them. -/
def copyCells (t : Table) (r : Nat) : List String :=
  t.columns.map fun col => toString ((col[r]?).getD 0)

/-- The text `COPY .. TO` writes. -/
def copyText (t : Table) : String :=
  String.ofList (((",".intercalate t.columnNames).toList ::
    (List.range t.rowCount).map fun r => (",".intercalate (copyCells t r)).toList).flatMap
      (· ++ ['\n']))

/-- The INSERT of a row. -/
def copyLine (t : Table) (name : String) (r : Nat) : String :=
  String.ofList (rowInsertText name (copyCells t r) [])

/-- Digits of any number are also the text of a float. -/
def Host.ReadsDigits (H : Host) : Prop := ∀ n : Nat, (H.parseF64 (toString n)).isSome = true

/-! ## The statements read from it -/

section

variable {t : Table} {texts : List String}

/-- Texts that are the decimals of numbers, as the cells of a row are. -/
def Decimals (texts : List String) : Prop := ∀ text ∈ texts, ∃ n : Nat, text = toString n

theorem decimals_copyCells {r : Nat} : Decimals (copyCells t r) := by
  intro text htext
  obtain ⟨col, -, rfl⟩ := mem_map.mp htext
  exact ⟨_, rfl⟩

/-- The characters of joined decimals. -/
theorem Decimals.mem_intercalate (h : Decimals texts) {sep : String} {c : Char}
    (hc : c ∈ (sep.intercalate texts).toList) : c ∈ sep.toList ∨ c.isDigit = true := by
  rw [String.toList_intercalate] at hc
  rcases Text.mem_intercalate hc with hc | ⟨part, hpart, hc⟩
  · exact .inl hc
  · obtain ⟨text, htext, rfl⟩ := mem_map.mp hpart
    obtain ⟨n, rfl⟩ := h text htext
    exact .inr (isDigit_of_mem_toString n hc)

theorem comma_not_mem_toString {n : Nat} : ',' ∉ (toString n).toList := fun h => by
  cases isDigit_of_mem_toString n h

/-- The line of a row gives the INSERT of its cells. -/
theorem copyInsert_line (hdigits : H.ReadsDigits) {name : String}
    (hne : texts ≠ []) (h : Decimals texts) :
    copyInsert H name (",".intercalate texts).toList =
      String.ofList (rowInsertText name texts []) := by
  have hsplit : Text.splitOn ',' (",".intercalate texts).toList = texts.map String.toList := by
    rw [String.toList_intercalate]
    refine splitOn_intercalate (by simpa using hne) ?_
    intro part hpart
    obtain ⟨text, htext, rfl⟩ := mem_map.mp hpart
    obtain ⟨n, rfl⟩ := h text htext
    exact comma_not_mem_toString
  have hmap : ∀ f : List Char → String, (∀ text ∈ texts, f text.toList = text) →
      (texts.map String.toList).map f = texts := by
    intro f hf
    rw [map_map]
    exact (map_congr_left hf).trans (map_id _)
  unfold copyInsert
  rw [hsplit, ofList_rowInsertText]
  simp only
  rw [hmap]
  intro text htext
  obtain ⟨n, rfl⟩ := h text htext
  simp only [trimChars_toString, String.ofList_toList, hdigits n, Bool.or_true, if_true]

/-- The lines of the file. -/
theorem lines_copyText (hnames : ∀ col ∈ t.columnNames, '\n' ∉ col.toList) :
    lines (copyText t).toList ≠ [] ∧
      (lines (copyText t).toList).drop 1 = (List.range t.rowCount).map fun r =>
        (",".intercalate (copyCells t r)).toList := by
  have hline : ∀ r, ∀ c ∈ (",".intercalate (copyCells t r)).toList,
      c ∈ ",".toList ∨ c.isDigit = true := fun r _ => decimals_copyCells.mem_intercalate
  have hend : ∀ r, (",".intercalate (copyCells t r)).toList.getLast? ≠ some '\r' := by
    intro r hlast
    have hmem := hline r '\r' (mem_of_getLast? hlast)
    revert hmem
    decide
  have hbreak : ∀ l ∈ (",".intercalate t.columnNames).toList ::
      (List.range t.rowCount).map (fun r => (",".intercalate (copyCells t r)).toList),
        '\n' ∉ l := by
    intro l hl hmem
    rcases mem_cons.mp hl with rfl | hl
    · rw [String.toList_intercalate] at hmem
      rcases mem_intercalate hmem with hmem | ⟨part, hpart, hmem⟩
      · revert hmem
        decide
      · obtain ⟨col, hcol, rfl⟩ := mem_map.mp hpart
        exact hnames col hcol hmem
    · obtain ⟨r, -, rfl⟩ := mem_map.mp hl
      have hchar := hline r '\n' hmem
      revert hchar
      decide
  have htext : (copyText t).toList = _ := String.toList_ofList
  rw [htext, lines_joined hbreak, map_cons, map_map]
  refine ⟨cons_ne_nil _ _, ?_⟩
  rw [drop_one, tail_cons]
  refine map_congr_left fun r _ => ?_
  exact if_neg (hend r)

/-- **The statements of a copied table.** The header is skipped, and every row gives an INSERT. -/
theorem copyStatements_copyText (hdigits : H.ReadsDigits) (name : String)
    (hnames : ∀ col ∈ t.columnNames, '\n' ∉ col.toList) (hne : t.columns ≠ []) :
    copyStatements H name (copyText t) = (List.range t.rowCount).map (copyLine t name) := by
  have hcells : ∀ r, copyCells t r ≠ [] := fun r => by simpa [copyCells] using hne
  have hblank : ∀ r, (trimChars (",".intercalate (copyCells t r)).toList).isEmpty = false := by
    intro r
    rw [trimChars_of_forall fun c hc => ?_]
    · obtain ⟨text, texts, heq⟩ := exists_cons_of_ne_nil (hcells r)
      obtain ⟨n, rfl⟩ := decimals_copyCells _ (heq ▸ mem_cons_self)
      obtain ⟨d, ds, hds, -⟩ := exists_toString
      rw [heq, String.toList_intercalate, map_cons, hds]
      cases texts <;> simp [List.intercalate]
    · rcases decimals_copyCells.mem_intercalate hc with hc | hdigit
      · obtain rfl := mem_singleton.mp hc
        rfl
      · exact not_isWhitespace_of_isDigit hdigit
  unfold copyStatements
  rw [(lines_copyText hnames).2, filterMap_map, ← filterMap_eq_map]
  refine filterMap_congr fun r _ => ?_
  show (if _ then none else some _) = some _
  rw [hblank r, if_neg (by simp), copyInsert_line hdigits (hcells r) decimals_copyCells, copyLine]

/-- A table without columns gives no statements. -/
theorem copyStatements_of_no_columns (name : String)
    (hnames : ∀ col ∈ t.columnNames, '\n' ∉ col.toList) (hnil : t.columns = []) :
    copyStatements H name (copyText t) = [] := by
  unfold copyStatements
  rw [(lines_copyText hnames).2, filterMap_map, filterMap_eq_nil_iff]
  intro r _
  have hcells : copyCells t r = [] := by rw [copyCells, hnil, map_nil]
  rw [Function.comp_apply, hcells]
  rfl

end

/-! ## Their way to the parser -/

/-- A table name as COPY needs it: ASCII letters, and the tokens of a plain or qualified name. -/
structure PlainName (H : Host) (name : String) : Prop where
  ascii : ∀ c ∈ name.toList, c.toNat < 128
  space : ' ' ∉ name.toList
  paren : '(' ∉ name.toList
  tokens : ∃ toks, Lexes (nextToken H) name.toList toks ∧ NameTokens name toks

/-- A character without a capital stands in a lower-cased text where it stood before. -/
theorem not_mem_map_toLower {cs : List Char} {d : Char} (hcs : ∀ c ∈ cs, c.toNat < 128)
    (hd : ∀ n < 128, (Char.ofNat n).toLower = d → Char.ofNat n = d) (h : d ∉ cs) :
    d ∉ cs.map Char.toLower := by
  intro hmem
  obtain ⟨c, hc, hlower⟩ := mem_map.mp hmem
  have heq := forall_ascii (P := fun c => c.toLower = d → c = d) hd (hcs c hc) hlower
  exact h (heq ▸ hc)

section Phrases

variable {name : String} {texts : List String} {c : Char}

/-- The words of the statement. -/
def insertWords : List (List Char) :=
  [['i', 'n', 's', 'e', 'r', 't'], ['i', 'n', 't', 'o'], ['v', 'a', 'l', 'u', 'e', 's']]

/-- The lower-cased statement, word by word. -/
def lowerInsert (name : String) (texts : List String) : List Char :=
  ['i', 'n', 's', 'e', 'r', 't'] ++ ' ' :: (['i', 'n', 't', 'o'] ++ ' ' ::
    (name.toList.map Char.toLower ++ ' ' :: (['v', 'a', 'l', 'u', 'e', 's'] ++ ' ' ::
      '(' :: (rowText texts ++ [')']))))

/-- The characters of a row of numbers. -/
theorem mem_rowText (h : Decimals texts) (hc : c ∈ rowText texts) :
    c = ',' ∨ c = ' ' ∨ c.isDigit = true := by
  rcases h.mem_intercalate hc with hc | hdigit
  · rcases mem_cons.mp hc with rfl | hc
    · exact .inl rfl
    · exact .inr (.inl (mem_singleton.mp hc))
  · exact .inr (.inr hdigit)

theorem ascii_rowInsertText (hname : ∀ c ∈ name.toList, c.toNat < 128) (h : Decimals texts) :
    Ascii (rowInsertText name texts []) := by
  have hinsert : Ascii insertInto := by unfold Ascii; decide
  have hvalues : Ascii valuesOpen := by unfold Ascii; decide
  intro c hc
  simp only [rowInsertText, mem_append] at hc
  rcases hc with hc | hc | hc | hc | hc
  · exact hinsert c hc
  · exact hname c hc
  · exact hvalues c hc
  · rcases mem_rowText h hc with rfl | rfl | hdigit
    · decide
    · decide
    · have := toNat_of_isDigit hdigit
      omega
  · rw [mem_singleton] at hc
    subst hc
    decide

theorem lower_rowInsertText (hlower : H.LowersAscii) (hname : ∀ c ∈ name.toList, c.toNat < 128)
    (h : Decimals texts) :
    (H.toLowercase (String.ofList (rowInsertText name texts []))).toList =
      lowerInsert name texts := by
  have hascii := ascii_rowInsertText hname h
  have hrow : (rowText texts).map Char.toLower = rowText texts := by
    refine (map_congr_left fun c hc => ?_).trans (map_id _)
    rcases mem_rowText h hc with rfl | rfl | hdigit
    · decide
    · decide
    · exact toLower_of_isDigit hdigit
  rw [hlower _ (by rw [toList_rowInsertText]; exact hascii), toList_rowInsertText]
  rw [show (String.ofList ((rowInsertText name texts []).map Char.toLower)).toList =
    (rowInsertText name texts []).map Char.toLower from String.toList_ofList]
  simp only [rowInsertText, map_append, hrow]
  rfl

/-- Behind VALUES there are no letters. -/
theorem not_isAlpha_of_mem_values (h : Decimals texts)
    (hc : c ∈ '(' :: (rowText texts ++ [')'])) : ¬ c.isAlpha = true := by
  rw [mem_cons, mem_append, mem_singleton] at hc
  rcases hc with rfl | hc | rfl
  · decide
  · rcases mem_rowText h hc with rfl | rfl | hdigit
    · decide
    · decide
    · exact not_isAlpha_of_isDigit hdigit
  · decide

/-- A phrase in the statement that begins with a word of its own ends the name. -/
theorem phrase_of_lowerInsert (hname : ∀ c ∈ name.toList, c.toNat < 128)
    (hspace : ' ' ∉ name.toList) (h : Decimals texts) {s p q t : List Char} (hp : ' ' ∉ p)
    (hwords : ∀ word ∈ insertWords, ¬ p <:+ word) (hletter : ∃ c ∈ p, c.isAlpha = true)
    (heq : s ++ (p ++ ' ' :: q) ++ t = lowerInsert name texts) :
    q ++ t = ['v', 'a', 'l', 'u', 'e', 's'] ++ ' ' :: '(' :: (rowText texts ++ [')']) := by
  have hspace' : ' ' ∉ name.toList.map Char.toLower :=
    not_mem_map_toLower hname (by decide +kernel) hspace
  rcases split_words hp (by decide) heq with ⟨hsuffix, -⟩ | ⟨s1, h1⟩
  · exact absurd hsuffix (hwords _ (by simp [insertWords]))
  rcases split_words hp (by decide) h1 with ⟨hsuffix, -⟩ | ⟨s2, h2⟩
  · exact absurd hsuffix (hwords _ (by simp [insertWords]))
  rcases split_words hp hspace' h2 with ⟨-, hrest⟩ | ⟨s3, h3⟩
  · exact hrest
  rcases split_words hp (by decide) h3 with ⟨hsuffix, -⟩ | ⟨s4, h4⟩
  · exact absurd hsuffix (hwords _ (by simp [insertWords]))
  · obtain ⟨c, hc, halpha⟩ := hletter
    exact absurd halpha (not_isAlpha_of_mem_values h (h4 ▸ by simp [hc]))

/-- A call is not found: its parenthesis stands behind VALUES, where there are no letters. -/
theorem no_call_in_lowerInsert (hname : ∀ c ∈ name.toList, c.toNat < 128)
    (hparen : '(' ∉ name.toList) (h : Decimals texts) {p : List Char} (hspace : ' ' ∉ p)
      (hcall : '(' ∈ p) (hletter : ∃ c ∈ p, c.isAlpha = true) :
    ¬ p <:+: lowerInsert name texts := by
  have hword : ∀ word : List Char, '(' ∉ word → ¬ p <:+: word := fun word hnot hin =>
    hnot (hin.subset hcall)
  have hparen' : '(' ∉ name.toList.map Char.toLower :=
    not_mem_map_toLower hname (by decide +kernel) hparen
  intro hin
  rcases infix_word hspace hin with hin | hin
  · exact hword _ (by decide) hin
  rcases infix_word hspace hin with hin | hin
  · exact hword _ (by decide) hin
  rcases infix_word hspace hin with hin | hin
  · exact hword _ hparen' hin
  rcases infix_word hspace hin with hin | hin
  · exact hword _ (by decide) hin
  · obtain ⟨c, hc, halpha⟩ := hletter
    exact not_isAlpha_of_mem_values h (hin.subset hc) halpha

/-- PIVOT with something else than a parenthesis behind it is no clause. -/
theorem parsePivotClause_eq_none (hlower : H.LowersAscii) {sql : String} (h : Ascii sql.toList)
    (hnext : ∀ s t, s ++ ['p', 'i', 'v', 'o', 't', ' '] ++ t = sql.toList.map Char.toLower →
      t.head? = some 'v') : Scan.parsePivotClause H sql = some none := by
  rw [Scan.parsePivotClause, show "pivot ".toList = ['p', 'i', 'v', 'o', 't', ' '] from rfl]
  split
  · rfl
  · next pos hpos =>
    have hlen : pos + 6 ≤ _ := Scan.le_length_of_find_lower hlower h (by simp) hpos
    rw [Scan.lower_of_ascii hlower h] at hpos
    obtain ⟨t, ht⟩ := (findBytes_of_ascii h.map_toLower hpos).1
    have hsplit : (sql.toList.map Char.toLower).take pos ++ ['p', 'i', 'v', 'o', 't', ' '] ++ t =
        sql.toList.map Char.toLower := by
      rw [append_assoc, ht, take_append_drop]
    have hrest : (sql.toList.drop (pos + 6)).map Char.toLower = t := by
      rw [map_drop, ← drop_drop, ← ht]
      rfl
    rw [dropBytes_of_ascii h hlen, Option.bind_some]
    obtain ⟨c, rest, hcons⟩ : ∃ c rest, sql.toList.drop (pos + 6) = c :: rest := by
      refine exists_cons_of_ne_nil fun hnil => ?_
      have := hnext _ _ hsplit
      rw [← hrest, hnil] at this
      cases this
    have hv : c.toLower = 'v' := by
      have := hnext _ _ hsplit
      rw [← hrest, hcons] at this
      exact Option.some.inj this
    have hc : c = 'v' ∨ c = 'V' := forall_ascii (P := fun c => c.toLower = 'v' → c = 'v' ∨ c = 'V')
      (by decide +kernel) (h c (drop_subset _ _ (hcons ▸ mem_cons_self))) hv
    show (if (trimStart (sql.toList.drop (pos + 6))).head? ≠ some '(' then some none else _) = _
    rw [hcons, trimStart]
    rcases hc with rfl | rfl
    · rfl
    · rfl

/-- **No phrase in the statements of COPY is taken for a clause**, whatever the table is called. -/
theorem unclaimed_rowInsertText (hlower : H.LowersAscii) {T : Scan.Transforms} {F : Frontend}
    (hname : PlainName H name) (h : Decimals texts) :
    Unclaimed H (Scan.frontend H T F) (String.ofList (rowInsertText name texts [])) := by
  have htext := lower_rowInsertText hlower hname.ascii h
  have hphrase : ∀ {s p q t : List Char}, ' ' ∉ p → (∀ word ∈ insertWords, ¬ p <:+ word) →
      (∃ c ∈ p, c.isAlpha = true) → s ++ (p ++ ' ' :: q) ++ t = lowerInsert name texts →
      q ++ t = ['v', 'a', 'l', 'u', 'e', 's'] ++ ' ' :: '(' :: (rowText texts ++ [')']) :=
    phrase_of_lowerInsert hname.ascii hname.space h
  constructor
  · rw [if_neg]
    rw [contains_iff, htext]
    rintro ⟨s, t, hst⟩
    have hq := hphrase (p := ['f', 'o', 'r']) (by decide) (by decide) (by decide) hst
    cases hq
  · rw [if_neg]
    rw [contains_iff, htext]
    rintro ⟨s, t, hst⟩
    have hq := hphrase (p := ['u', 'n', 'i', 'o', 'n']) (by decide) (by decide) (by decide) hst
    cases hq
  · split
    · have hascii := ascii_rowInsertText hname.ascii h
      have hnone : Scan.parsePivotClause H (String.ofList (rowInsertText name texts [])) =
          some none := by
        refine parsePivotClause_eq_none hlower (by rw [toList_rowInsertText]; exact hascii) ?_
        intro s t hst
        rw [toList_rowInsertText, ← Scan.lower_of_ascii hlower hascii, Scan.lower, htext] at hst
        have hq := hphrase (p := ['p', 'i', 'v', 'o', 't']) (q := []) (by decide) (by decide)
          (by decide) hst
        rw [nil_append] at hq
        rw [hq]
        rfl
      simp only [Scan.frontend, hnone, Option.bind_some]
    · rfl
  · have hcall : ∀ pat : String, ' ' ∉ pat.toList → '(' ∈ pat.toList →
        (∃ c ∈ pat.toList, c.isAlpha = true) →
        contains (H.toLowercase (String.ofList (rowInsertText name texts []))) pat = false := by
      intro pat hspace hcall hletter
      by_contra hcontains
      rw [Bool.not_eq_false, contains_iff, htext] at hcontains
      exact no_call_in_lowerInsert hname.ascii hname.paren h hspace hcall hletter hcontains
    rw [hcall "json_value(" (by decide) (by decide) (by decide),
      hcall "json_query(" (by decide) (by decide) (by decide)]
    rfl

end Phrases

/-! ## Executing them -/

section

variable (hhost : AsciiHost H) (hlower : H.LowersAscii) (hcases : H.CasesAsciiStart)
  (T : Scan.Transforms) (F : Frontend) {name : String} (hname : PlainName H name) (n : Nat)
  {e : QueryEngine} {t u : Table} {r : Nat}

theorem plainStart_insert : PlainStart ['I', 'N', 'S', 'E', 'R', 'T'] where
  ascii := by decide
  head := rfl
  last := rfl
  lower := by decide
  upper := by decide

theorem copyCells_eq : copyCells t r =
    (List.range t.columns.length).map fun c => toString (t.cellAt c r).toNat := by
  refine ext_getElem (by simp [copyCells]) fun c hc hc' => ?_
  rw [copyCells, length_map] at hc
  simp only [copyCells, getElem_map, getElem_range, Table.cellAt_eq (getElem?_eq_getElem hc)]
  rfl

/-- A line of the file that is inserted. -/
def rowStep (H : Host) (F : Frontend) (n : Nat) (e : QueryEngine) (sql : String) :
    Option QueryEngine :=
  match executeInner H F n e sql none with
  | some (e', .ok _) => some e'
  | _ => none

theorem copyRows_eq_run (F : Frontend) (lines : List String) (count : Nat) (e : QueryEngine) :
    (match copyRows (executeInner H F n) lines count e with
      | some (e', .ok _) => some e'
      | _ => none) = Run.run (rowStep H F n) e lines := by
  induction lines generalizing e count with
  | nil => rfl
  | cons sql lines ih =>
    rw [copyRows, Run.run, rowStep]
    rcases executeInner H F n e sql none with _ | ⟨e', err | qr⟩
    · rfl
    · rfl
    · exact ih (count + 1) e'

include hlower hcases hname in
theorem innerRoute_copyLine (t : Table) (r : Nat) :
    innerRoute H (Scan.frontend H T F) (copyLine t name r) =
      .statement none (tableKind H (Scan.frontend H T F) (copyLine t name r)) :=
  innerRoute_plain hcases plainStart_insert _ (by simp)
    (unclaimed_rowInsertText hlower hname decimals_copyCells)

include hhost hlower hcases hname in
/-- A row of readable numbers is inserted. -/
theorem rowStep_copyLine (hget : e.catalog.get name = some u)
    (hlen : u.columns.length = t.columns.length)
    (h : ∀ c < t.columns.length, (t.cellAt c r).toNat < 2 ^ 63) :
    ∃ e', rowStep H (Scan.frontend H T F) n e (copyLine t name r) = some e' ∧
      e'.catalog.get name = some (pushRow H u (copyCells t r)) := by
  obtain ⟨toks, hlexes, htoks⟩ := hname.tokens
  have hroute := innerRoute_copyLine hlower hcases T F hname t r
  simp only [copyLine, copyCells_eq] at hroute ⊢
  rw [tableKind_rowInsertText hhost hlexes htoks
    (fun c hc => ⟨_, readsAs_number (h c (mem_range.mp hc))⟩) .nil (by simp)] at hroute
  obtain ⟨e', hexec, hcat, -⟩ := executeInner_insertRow (n := n) hroute hget (by simp [hlen])
    fun v hv => by
      obtain ⟨c, hc, rfl⟩ := mem_map.mp hv
      rw [parseValueCell_toString H (h c (mem_range.mp hc))]
      rfl
  refine ⟨e', by rw [rowStep, hexec], ?_⟩
  rw [hcat]
  exact get_register_pushRow hget

include hhost hlower hcases hname in
/-- A row with a number that cannot be read ends COPY. -/
theorem rowStep_copyLine_error (h : ¬ ∀ c < t.columns.length, (t.cellAt c r).toNat < 2 ^ 63) :
    rowStep H (Scan.frontend H T F) n e (copyLine t name r) = none := by
  obtain ⟨toks, hlexes, -⟩ := hname.tokens
  have hroute := innerRoute_copyLine hlower hcases T F hname t r
  simp only [copyLine, copyCells_eq] at hroute ⊢
  obtain ⟨err, hkind⟩ := tableKind_rowInsertText_error (Scan.frontend H T F)
    (List.range t.columns.length) _ hhost hlexes (fun c _ hc => ⟨_, readsAs_number hc⟩)
    (fun _ _ => unreadable_number) (by simpa using h)
  rw [hkind] at hroute
  rw [rowStep, executeInner_fail hroute]
  rfl

end

/-! ## The round trip -/

/-- The same rows in the same order, with the same NULL flags and the same texts. -/
structure SameContents (t u : Table) : Prop where
  rowCount : t.rowCount = u.rowCount
  columns : t.columns = u.columns
  nulls : ∀ c < t.columns.length, ∀ r < t.rowCount, t.isNull c r = u.isNull c r
  texts : ∀ c < t.columns.length, t.isStringColumn c = true → ∀ r < t.rowCount,
    t.textAt c r = u.textAt c r

/-- The table of the given name after two statements that both succeed. -/
def tableAfter (H : Host) (F : Frontend) (n : Nat) (e : QueryEngine) (first second name : String) :
    Option Table :=
  match execute H F n e first with
  | some (e1, .ok _) =>
    match execute H F n e1 second with
    | some (e2, .ok _) => e2.catalog.get name
    | _ => none
  | _ => none

/-- `COPY t TO f` and `COPY fresh FROM f`, where `fresh` is an empty table of the same schema, and
the file still holds what was written to it. -/
structure Copies (H : Host) (e : QueryEngine) (t fresh : Table) (path first second : String) :
    Prop where
  get : e.catalog.get t.name = some t
  header : ∀ col ∈ t.columnNames, '\n' ∉ col.toList
  getFresh : e.catalog.get fresh.name = some fresh
  wellFormedFresh : fresh.WellFormed
  empty : fresh.rowCount = 0
  schema : fresh.schema = t.schema
  columns : fresh.columns.length = t.columns.length
  name : PlainName H fresh.name
  first : ∃ text, outerRoute H first = .copy text ∧ copyPlan H text = .to t.name path
  second : ∃ text, outerRoute H second = .copy text ∧ copyPlan H text = .from_ fresh.name path
  canWrite : H.canWrite e.tick path = true
  readFile : H.readFile (e.tick + 1) path = some (copyText t)

/-- The condition: every column has all its rows, the words of all cells are below `2 ^ 63`, no cell
is NULL, and the texts of string columns are the decimals of their cells. A table without columns
has no lines to copy. -/
structure Copyable (t : Table) : Prop where
  columns : t.columns = [] → t.rowCount = 0
  shape : ∀ col ∈ t.columns, col.length = t.rowCount
  cells : ∀ c < t.columns.length, ∀ r < t.rowCount, (t.cellAt c r).toNat < 2 ^ 63
  nulls : ∀ c < t.columns.length, ∀ r < t.rowCount, t.isNull c r = false
  texts : ∀ c < t.columns.length, t.isStringColumn c = true → ∀ r < t.rowCount,
    t.textAt c r = toString (t.cellAt c r)

section RoundTrip

variable {t u fresh : Table}

theorem valueAt_copyCells {c : Nat} (hc : c < t.columns.length) {r : Nat} :
    valueAt (copyCells t r) c = toString (t.cellAt c r).toNat := by
  rw [copyCells_eq, valueAt, getD_eq_getElem?_getD, getElem?_map, getElem?_range hc]
  rfl

/-- A table filled from the lines of `t` has the contents of `t` up to NULL flags and texts. -/
theorem sameContents_filled_iff (hne : t.columns ≠ [])
    (hsmall : ∀ c < t.columns.length, ∀ r < t.rowCount, (t.cellAt c r).toNat < 2 ^ 63)
    (hfilled : Filled H u ((List.range t.rowCount).map (copyCells t)))
    (hlen : u.columns.length = t.columns.length) (hschema : u.schema = t.schema) :
    SameContents u t ↔ Copyable t := by
  have hcount : u.rowCount = t.rowCount := by simpa using hfilled.count
  have hnull : ∀ c < t.columns.length, ∀ r < t.rowCount, u.isNull c r = false := by
    intro c hc r hr
    rw [hfilled.nulls c (by omega) r (by simpa using hr)]
    simp only [getD_eq_getElem?_getD, getElem?_map, getElem?_range hr, Option.map_some,
      Option.getD_some, valueAt_copyCells hc, isNullText_toString]
  have hstring : ∀ c, u.isStringColumn c = t.isStringColumn c := fun c => by
    rw [Table.isStringColumn, Table.isStringColumn, hschema]
  have htext : ∀ c < t.columns.length, t.isStringColumn c = true → ∀ r < t.rowCount,
      u.textAt c r = toString (t.cellAt c r) := by
    intro c hc hstr r hr
    rcases hfilled.texts c (by omega) ((hstring c).trans hstr) with hsc | ⟨hnil, -⟩
    · rw [Table.textAt, hsc]
      simp only [Option.getD_some, getD_eq_getElem?_getD, map_map, getElem?_map,
        getElem?_range hr, Option.map_some, Function.comp_apply, valueAt_copyCells hc,
        sidecarText_toString]
      rfl
    · rw [map_eq_nil_iff, range_eq_nil] at hnil
      omega
  have hshape : ∀ col ∈ u.columns, col.length = t.rowCount := by
    intro col hcol
    obtain ⟨c, hc, rfl⟩ := getElem_of_mem hcol
    have hcells := hfilled.cells c hc
    rw [getElem?_eq_getElem hc, Option.some_inj] at hcells
    simp [hcells]
  have hcolumns (hfull : ∀ col ∈ t.columns, col.length = t.rowCount) : u.columns = t.columns := by
    refine ext_getElem? fun c => ?_
    rcases Nat.lt_or_ge c t.columns.length with hc | hge
    · have hcol := getElem?_eq_getElem hc
      have hcells := hfull _ (getElem_mem hc)
      rw [hfilled.cells c (by omega), hcol, Option.some_inj, map_map]
      refine ext_getElem? fun r => ?_
      rcases Nat.lt_or_ge r t.rowCount with hr | hge
      · have hword := hsmall c hc r hr
        rw [getElem?_map, getElem?_range hr, Option.map_some, Function.comp_apply,
          valueAt_copyCells hc, cellOf, parseValueCell_toString H hword, Option.getD_some,
          UInt64.ofNat_toNat, Table.cellAt_eq hcol, getElem?_eq_getElem (by omega),
            Option.getD_some]
      · rw [getElem?_eq_none (by simpa using hge), getElem?_eq_none (by omega)]
    · rw [getElem?_eq_none (by omega), getElem?_eq_none hge]
  constructor
  · intro h
    refine ⟨fun hnil => absurd hnil hne, h.columns ▸ hshape, hsmall, fun c hc r hr => ?_,
      fun c hc hstr r hr => ?_⟩
    · rw [← h.nulls c (by omega) r (by omega), hnull c hc r hr]
    · rw [← h.texts c (by omega) ((hstring c).trans hstr) r (by omega), htext c hc hstr r hr]
  · intro h
    refine ⟨hcount, hcolumns h.shape, fun c hc r hr => ?_, fun c hc hstr r hr => ?_⟩
    · rw [hnull c (by omega) r (by omega), h.nulls c (by omega) r (by omega)]
    · have hstr' := (hstring c).symm.trans hstr
      rw [htext c (by omega) hstr' r (by omega), h.texts c (by omega) hstr' r (by omega)]

/-- The two statements come down to the INSERTs of the file. -/
theorem tableAfter_copies {F : Frontend} {n : Nat} {e : QueryEngine} {path first second : String}
    (h : Copies H e t fresh path first second) :
    ∃ e', e'.catalog = e.catalog ∧ tableAfter H F n e first second fresh.name =
      (Run.run (rowStep H F n) e' (copyStatements H fresh.name (copyText t))).bind
        (·.catalog.get fresh.name) := by
  obtain ⟨text, houter, hplan⟩ := h.first
  obtain ⟨text', houter', hplan'⟩ := h.second
  have hfirst : execute H F n e first =
      some ({ e with tick := e.tick + 1 }, .ok (.affected t.rowCount)) := by
    simp only [execute, executeStep, houter, executeCopy, hplan, h.get, h.canWrite, if_true]
    rfl
  have hlines : (lines (copyText t).toList).isEmpty = false := by
    rw [isEmpty_eq_false_iff]
    exact (lines_copyText h.header).1
  refine ⟨{ e with tick := e.tick + 1 + 1 }, rfl, ?_⟩
  have hsecond : execute H F n { e with tick := e.tick + 1 } second =
      copyRows (executeInner H F n) (copyStatements H fresh.name (copyText t)) 0
        { e with tick := e.tick + 1 + 1 } := by
    simp only [execute, executeStep, houter', executeCopy, hplan', h.readFile, hlines,
      Bool.false_eq_true, if_false]
  rw [tableAfter, hfirst, ← copyRows_eq_run n F _ 0]
  simp only [hsecond]
  split <;> rfl

end RoundTrip

/-! ## Three small tables -/

/-- A host whose only file has the given contents, and whose floats are digits. -/
def copyHost (content : String) : Host :=
  { Host.ascii with
    parseF64 := fun s => if s.toList.all Char.isDigit then some 0 else none
    readFile := fun _ _ => some content }

variable {content : String}

theorem readsDigits_copyHost : (copyHost content).ReadsDigits := by
  intro n
  have hall : (toString n).toList.all Char.isDigit = true :=
    all_eq_true.mpr fun _ hc => isDigit_of_mem_toString n hc
  show (if _ then some _ else none).isSome = true
  rw [if_pos hall]
  rfl

theorem asciiHost_copyHost : AsciiHost (copyHost content) where
  alphanumeric _ _ := rfl
  uppercase _ _ := rfl

/-- A table with an integer column and, if there are texts, a string column. -/
def copyTable (name : String) (numbers : List UInt64) (nulls : Option (List Bool))
    (strings : List (UInt64 × String)) : Table where
  name := name
  columns := [numbers, strings.map Prod.fst]
  columnNames := ["a", "s"]
  rowCount := numbers.length
  stringColumns := [none, some (strings.map Prod.snd)]
  nullBitmaps := [nulls, none]
  schema := some { columns := [
    { name := "a", colType := .int, notNull := false, primaryKey := false },
    { name := "s", colType := .text, notNull := false, primaryKey := false }] }

def emptyCopy : Table := copyTable "u" [] none []

theorem wellFormed_emptyCopy : emptyCopy.WellFormed where
  names := rfl
  strings := rfl
  nulls := rfl
  cells := by decide
  bitmaps := by simp [emptyCopy, copyTable]
  sidecars := by simp [emptyCopy, copyTable]

/-- An engine with a table `t` and an empty table `u`. -/
def copyEngine (t : Table) : QueryEngine :=
  { QueryEngine.new with catalog := (Catalog.empty.register t).register emptyCopy }

/-- The frontend of the runs below: no statement in them gets to a transformation. -/
def copyFrontend (H : Host) : Frontend :=
  Scan.frontend H { pivot := fun _ qr => qr, json := fun _ qr => qr } .closed

/-- Rows in which a number was inserted into the string column. -/
def numbersTable : Table := copyTable "t" [1, 2] none [(7, "7"), (8, "8")]

/-- A NULL and a text with its xxh3 hash, which is below `2 ^ 63`, and a negative number. -/
def nullTable : Table := copyTable "t" [0] (some [true]) [(6294355645245719615, "b")]

def negativeTable : Table := copyTable "t" [0xFFFFFFFFFFFFFFFF] none [(7, "7")]

end TensorVault
