import TensorVault.Sql.Ddl
import TensorVault.Sql.Joining

/-!
# Statements that are printed and read back

COPY and the checkpoint write rows as `INSERT INTO name VALUES (..)`. Each written value is followed
through the tokenizer (`ReadsAs`), and from there the whole statement through the DML parser. A
number of `2 ^ 63` and more stops the tokenizer (`nextToken_digits`).
-/

namespace TensorVault.Sql

variable {toks : List Token} {rest : List Char} {c : Char} {name : String}

open Text Lexer List

variable {H : Host} {cs b : List Char} {n : Nat}

theorem tokenize_of_lexes (hhost : AsciiHost H) (h : Lexed H cs toks) :
    tokenize H (String.ofList cs) = .ok (toks ++ [.eof]) := by
  refine (tokenize_eq_ok_iff hhost).mpr ⟨toks, ?_, rfl⟩
  rw [String.toList_ofList]
  exact h

/-! ## Separators -/

theorem lexes_space (h : Lexed H rest toks) : Lexed H (' ' :: rest) toks :=
  .step (show nextToken H ' ' rest = .ok (none, rest) from rfl) h

theorem lexes_comma (h : Lexed H rest toks) : Lexed H (',' :: rest) (.comma :: toks) :=
  .step (show nextToken H ',' rest = .ok (some .comma, rest) from rfl) h

theorem lexes_lparen (h : Lexed H rest toks) : Lexed H ('(' :: rest) (.lparen :: toks) :=
  .step (show nextToken H '(' rest = .ok (some .lparen, rest) from rfl) h

theorem lexes_rparen (h : Lexed H rest toks) : Lexed H (')' :: rest) (.rparen :: toks) :=
  .step (show nextToken H ')' rest = .ok (some .rparen, rest) from rfl) h

/-! ## Words -/

theorem nextToken_word (hc : (c.isAlpha || c == '_') = true) (hquote : rest.head? ≠ some '\'') :
    nextToken H c rest =
      .ok (some (wordToken H (String.ofList (c :: rest.takeWhile (isIdentChar H)))),
        rest.dropWhile (isIdentChar H)) := by
  have hne := ne_of_mem (p := fun d => d.isAlpha || d == '_')
    (' ' :: '\t' :: '\n' :: '\r' :: symbols) hc (by decide)
  have hdigit : c.isDigit = false := by
    rcases Bool.or_eq_true_iff.mp hc with halpha | hunder
    · delta Char.isAlpha Char.isUpper Char.isLower at halpha
      simp only [Char.isDigit, UInt32.le_iff_toNat_le, Bool.or_eq_true, Bool.and_eq_true,
        decide_eq_true_eq, Bool.and_eq_false_iff, decide_eq_false_iff_not, ge_iff_le] at halpha ⊢
      have h9 : '9'.val.toNat = 57 := rfl
      have hA : 'A'.val.toNat = 65 := rfl
      have ha : 'a'.val.toNat = 97 := rfl
      omega
    · rw [beq_iff_eq.mp hunder]
      rfl
  simp only [symbols, forall_mem_cons] at hne
  simp [nextToken, hne, hdigit, hquote, hc]

theorem isIdentChar_of_isAlphanum (hhost : AsciiHost H) (h : c.isAlphanum = true)
    (hascii : c.toNat < 128) : isIdentChar H c = true := by
  rw [isIdentChar, hhost.alphanumeric c hascii, h]
  rfl

/-- A word is one token. -/
theorem lexes_word (hhost : AsciiHost H) (hc : (c.isAlpha || c == '_') = true)
    (hcs : ∀ d ∈ cs, isIdentChar H d = true) :
    Lexed H (c :: cs) [wordToken H (String.ofList (c :: cs))] := by
  have hquote : cs.head? ≠ some '\'' := by
    intro hhead
    have hident := hcs '\'' (mem_of_mem_head? hhead)
    rw [isIdentChar, hhost.alphanumeric _ (by decide)] at hident
    cases hident
  have hnext := nextToken_word (H := H) hc hquote
  rw [takeWhile_eq_self_iff.mpr hcs, dropWhile_eq_nil_iff.mpr hcs] at hnext
  exact .step hnext .nil

/-- A reserved word in upper case. -/
theorem lexes_keyword (hhost : AsciiHost H)
    (hletters : ∀ d ∈ c :: cs, d.isAlpha = true ∧ d.toNat < 128 ∧ d.toUpper = d)
    (hkeyword : keywords.contains (String.ofList (c :: cs)) = true) :
    Lexed H (c :: cs) [.keyword (String.ofList (c :: cs))] := by
  have hascii : ∀ d ∈ (String.ofList (c :: cs)).toList, d.toNat < 128 := by
    rw [String.toList_ofList]
    exact fun d hd => (hletters d hd).2.1
  have hupper : H.toUppercase (String.ofList (c :: cs)) = String.ofList (c :: cs) := by
    rw [hhost.uppercase _ hascii, String.toList_ofList, map_congr_left fun d hd =>
      (hletters d hd).2.2, map_id']
  have hword : wordToken H (String.ofList (c :: cs)) = .keyword (String.ofList (c :: cs)) := by
    unfold wordToken
    simp only [hupper, hkeyword, if_true]
  rw [← hword]
  refine lexes_word hhost (by simp [(hletters c mem_cons_self).1]) fun d hd => ?_
  obtain ⟨halpha, hlt, -⟩ := hletters d (mem_cons_of_mem _ hd)
  exact isIdentChar_of_isAlphanum hhost (by simp [Char.isAlphanum, halpha]) hlt

/-! ## Numbers -/

theorem parseI64_toString (n : Nat) :
    parseI64 (toString n) = if n < 2 ^ 63 then some (n : Int) else none := by
  have hdigit : ∀ c ∈ (toString n).toList, c.isDigit = true := fun _ => isDigit_of_mem_toString n
  have hparse := parseDigits_toString n
  unfold parseI64
  split
  · next rest heq =>
    have := hdigit '-' (heq ▸ mem_cons_self)
    cases this
  · split
    · next rest heq =>
      have := hdigit '+' (heq ▸ mem_cons_self)
      cases this
    · simp only [hparse]

/-- The digits of a number, and what the parser makes of them. -/
theorem exists_digits {n : Nat} : ∃ d ds, (toString n).toList = d :: ds ∧
    (∀ c ∈ d :: ds, c.isDigit = true) ∧
    parseI64 (String.ofList (d :: ds)) = if n < 2 ^ 63 then some (n : Int) else none := by
  obtain ⟨d, ds, hds, -⟩ := exists_toString
  refine ⟨d, ds, hds, fun c hc => isDigit_of_mem_toString n (hds ▸ hc), ?_⟩
  rw [← hds, String.ofList_toList, parseI64_toString]

/-- Digits are one token if they fit `i64`, and stop the tokenizer if they do not. -/
theorem nextToken_digits {ds b : List Char} (hds : ∀ d ∈ c :: ds, d.isDigit = true)
    (hb : ∀ y b', b = y :: b' → isSeparator y = true) :
    (∀ n, parseI64 (String.ofList (c :: ds)) = some n →
      nextToken H c (ds ++ b) = .ok (some (.int n), b)) ∧
    (parseI64 (String.ofList (c :: ds)) = none → ∃ e, nextToken H c (ds ++ b) = .error e) := by
  have hc := hds c mem_cons_self
  have hnum : ∀ d ∈ c :: ds, isNumChar d = true := by
    intro d hd
    rw [isNumChar, hds d hd]
    rfl
  have hclose : isCloser c = false := not_isCloser (fun _ => isDigit_of_isCloser) hc
  have hjoins : ∀ a, Joins a b := fun a x y b' _ heq => .inr (hb y b' heq)
  have hspan : (c :: (ds ++ b)).takeWhile isNumChar = c :: ds ∧
      (c :: (ds ++ b)).dropWhile isNumChar = b := by
    obtain ⟨htake, hdrop⟩ := (hjoins (c :: ds)).span (fun _ => isNumChar_of_isCloser) hclose
    have hds' := (forall_mem_cons.mp hnum).2
    rw [takeWhile_cons_of_pos (hnum c mem_cons_self),
      dropWhile_cons_of_pos (hnum c mem_cons_self), htake, hdrop,
      takeWhile_eq_self_iff.mpr hds', dropWhile_eq_nil_iff.mpr hds']
    exact ⟨rfl, rfl⟩
  have hexponent : readExponent b = ([], b) := by
    have := (readExponent_append hclose (hjoins [c])).1
    rwa [nil_append] at this
  have hdot : (c :: ds).contains '.' = false := by
    rw [contains_eq_mem, decide_eq_false_iff_not]
    intro hmem
    cases hds '.' hmem
  have hread : (∀ n, parseI64 (String.ofList (c :: ds)) = some n →
        readNumber H (c :: (ds ++ b)) = .ok (.int n, b)) ∧
      (parseI64 (String.ofList (c :: ds)) = none →
        ∃ e, readNumber H (c :: (ds ++ b)) = .error e) := by
    unfold readNumber
    simp only [hspan.1, hspan.2, hexponent, hdot, append_nil, isEmpty_nil, Bool.not_true,
      Bool.or_self, Bool.false_eq_true, if_false]
    refine ⟨fun n hn => by rw [hn], fun hn => ?_⟩
    rw [hn]
    exact ⟨_, rfl⟩
  have hne := ne_of_mem (' ' :: '\t' :: '\n' :: '\r' :: symbols) hc (by decide)
  simp only [symbols, forall_mem_cons] at hne
  have hnext : (∀ tok rest', readNumber H (c :: (ds ++ b)) = .ok (tok, rest') →
        nextToken H c (ds ++ b) = .ok (some tok, rest')) ∧
      (∀ e, readNumber H (c :: (ds ++ b)) = .error e → nextToken H c (ds ++ b) = .error e) := by
    simp only [nextToken, hne, hc, or_self, if_true, if_false]
    exact ⟨fun _ _ hok => by rw [hok], fun _ herror => by rw [herror]⟩
  refine ⟨fun n hn => hnext.1 _ _ (hread.1 n hn), fun hn => ?_⟩
  obtain ⟨e, he⟩ := hread.2 hn
  exact ⟨e, hnext.2 e he⟩

/-! ## Quoted texts -/

/-- `str::replace` of a quote by two quotes. -/
def doubled (cs : List Char) : List Char :=
  cs.flatMap fun c => if c = '\'' then ['\'', '\''] else [c]

theorem readStringLiteral_doubled (cs acc : List Char) (hb : b.head? ≠ some '\'') :
    readStringLiteral acc (doubled cs ++ '\'' :: b) = .ok (String.ofList (acc ++ cs), b) := by
  induction cs generalizing acc with
  | nil =>
    rw [append_nil]
    refine readStringLiteral_end fun y rest hrest => ?_
    rintro rfl
    exact hb (by rw [hrest]; rfl)
  | cons c cs ih =>
    have hacc : acc ++ c :: cs = acc ++ [c] ++ cs := by simp
    rw [hacc, ← ih (acc ++ [c])]
    by_cases hc : c = '\''
    · subst hc
      simp [doubled, readStringLiteral]
    · have hdoubled : doubled (c :: cs) = c :: doubled cs := by simp [doubled, hc]
      rw [hdoubled, cons_append, readStringLiteral_cons_of_ne hc]

theorem lexes_quoted (cs : List Char) :
    Lexed H ('\'' :: (doubled cs ++ ['\''])) [.string (String.ofList cs)] := by
  have hread := readStringLiteral_doubled cs [] (b := []) (by simp)
  have hnext : nextToken H '\'' (doubled cs ++ ['\'']) =
      .ok (some (.string (String.ofList cs)), []) := by
    unfold nextToken
    simp [hread]
  exact .step hnext .nil

/-! ## Values -/

/-- A text that is one token and comes out of the DML parser as the value `v`. -/
structure ReadsAs (H : Host) (text : String) (tok : Token) (v : String) : Prop where
  lexes : Lexes (nextToken H) text.toList [tok]
  value : valueString H tok = .ok v
  neComma : tok ≠ .comma
  neClose : tok ≠ .rparen

theorem readsAs_number (h : n < 2 ^ 63) : ReadsAs H (toString n) (.int n) (toString n) := by
  obtain ⟨d, ds, htext, hdigit, hparse⟩ := exists_digits
  rw [if_pos h] at hparse
  refine ⟨?_, rfl, by simp, by simp⟩
  rw [htext]
  have hnext := (nextToken_digits (H := H) (b := []) hdigit (by simp)).1 _ hparse
  rw [append_nil] at hnext
  exact .step hnext .nil

theorem readsAs_null (hhost : AsciiHost H) : ReadsAs H "NULL" (.keyword "NULL") "NULL" :=
  ⟨lexes_keyword hhost (by decide) (by decide), rfl, by simp, by simp⟩

theorem readsAs_quoted {s : String} :
    ReadsAs H (String.ofList ('\'' :: (doubled s.toList ++ ['\'']))) (.string s)
      ("'" ++ s ++ "'") := by
  refine ⟨?_, rfl, by simp, by simp⟩
  rw [String.toList_ofList]
  have := lexes_quoted (H := H) s.toList
  rwa [String.ofList_toList] at this

/-- A text that stops the tokenizer if a separator follows. -/
def Unreadable (H : Host) (text : String) : Prop :=
  ∀ y b, isSeparator y = true → ∀ toks, ¬ Lexes (nextToken H) (text.toList ++ y :: b) toks

theorem unreadable_number (h : ¬ n < 2 ^ 63) : Unreadable H (toString n) := by
  obtain ⟨d, ds, htext, hdigit, hparse⟩ := exists_digits
  rw [if_neg h] at hparse
  intro y b hy toks htoks
  have hb : ∀ y' b', y :: b = y' :: b' → isSeparator y' = true := by
    rintro y' b' heq
    cases heq
    exact hy
  obtain ⟨e, he⟩ := (nextToken_digits (H := H) hdigit hb).2 hparse
  rw [htext, cons_append] at htoks
  cases htoks with
  | step hnext _ =>
    cases he.symm.trans hnext

/-! ## Rows -/

/-- A value as it is written, the token it is read as, and the value the parser makes of it. -/
structure Cell where
  text : String
  tok : Token
  value : String

/-- The values of a row as they are written between parentheses. -/
def rowText (texts : List String) : List Char := (", ".intercalate texts).toList

theorem rowText_cons_cons {text text' : String} {texts : List String} :
    rowText (text :: text' :: texts) = text.toList ++ ([',', ' '] ++ rowText (text' :: texts)) := by
  unfold rowText
  rw [String.toList_intercalate, String.toList_intercalate, map_cons, map_cons,
    intercalate_cons_cons, append_assoc]
  rfl

theorem rowText_singleton {text : String} : rowText [text] = text.toList := by
  unfold rowText
  rw [String.toList_intercalate]
  simp [List.intercalate]

theorem lexes_commaSpace : Lexed H [',', ' '] [.comma] :=
  lexes_comma (lexes_space .nil)

/-- Texts with commas between them are read one after the other. -/
theorem lexes_parts (hhost : AsciiHost H) (parts : List (String × List Token))
    (h : ∀ p ∈ parts, Lexed H p.1.toList p.2) :
    Lexed H (rowText (parts.map Prod.fst))
      ([Token.comma].intercalate (parts.map Prod.snd)) := by
  induction parts with
  | nil => exact .nil
  | cons p parts ih =>
    have hp := h p mem_cons_self
    have ih := ih (forall_mem_cons.mp h).2
    cases parts with
    | nil =>
      rw [map_singleton, map_singleton, rowText_singleton]
      simpa [List.intercalate] using hp
    | cons q parts =>
      simp only [map_cons, intercalate_cons_cons, rowText_cons_cons, append_assoc] at ih ⊢
      exact lexes_append hhost hp (lexes_append hhost lexes_commaSpace ih (joins_of_closed rfl))
        (joins_separator rfl)

variable {cells : List Cell} {texts : List String}

theorem lexes_row (hhost : AsciiHost H) (h : ∀ x ∈ cells, ReadsAs H x.text x.tok x.value) :
    Lexed H (rowText (cells.map Cell.text)) ((cells.map Cell.tok).intersperse .comma) := by
  have hparts := lexes_parts hhost (cells.map fun x => (x.text, [x.tok])) fun p hp => by
    obtain ⟨x, hx, rfl⟩ := mem_map.mp hp
    exact (h x hx).lexes
  have htoks : [Token.comma].intercalate (cells.map fun x => [x.tok]) =
      (cells.map Cell.tok).intersperse .comma := by
    clear h hparts
    induction cells with
    | nil => rfl
    | cons x cells ih =>
      cases cells with
      | nil => rfl
      | cons y cells =>
        simp only [map_cons, intercalate_cons_cons, intersperse_cons_cons] at ih ⊢
        rw [ih]
        rfl
  rw [map_map, map_map] at hparts
  rw [← htoks]
  exact hparts

/-- The parser takes a row apart again. -/
theorem valueRows_row (cells : List Cell) (h : ∀ x ∈ cells, ReadsAs H x.text x.tok x.value)
    (row : List String) {rest : List Token} (hrest : rest.head? ≠ some .comma) :
    valueRows H [] (some row) ((cells.map Cell.tok).intersperse .comma ++ .rparen :: rest) =
      .ok [row ++ cells.map Cell.value] := by
  have hvalue : ∀ (x : Cell), x ∈ cells → ∀ row rest,
      valueRows H [] (some row) (x.tok :: rest) =
        valueRows H [] (some (row ++ [x.value])) rest := by
    intro x hx row rest
    obtain ⟨-, hv, hcomma, hclose⟩ := h x hx
    rw [valueRows, hv]
    · exact hclose
    · exact hcomma
  induction cells generalizing row with
  | nil =>
    rw [map_nil, intersperse_nil, nil_append, valueRows]
    · simp
    · rintro rest' rfl
      exact hrest rfl
  | cons x cells ih =>
    have hx := hvalue x mem_cons_self
    have ih := ih (forall_mem_cons.mp h).2 (row ++ [x.value]) (forall_mem_cons.mp hvalue).2
    cases cells with
    | nil =>
      rw [map_singleton, intersperse_singleton, cons_append, hx]
      simpa using ih
    | cons y cells =>
      simp only [map_cons, intersperse_cons_cons, cons_append] at ih ⊢
      rw [hx, valueRows, ih]
      simp

/-- A row with an unreadable value stops the tokenizer. -/
theorem not_lexes_row (hhost : AsciiHost H)
    (h : ∀ text ∈ texts, Unreadable H text ∨ ∃ toks, Lexed H text.toList toks)
    (hbad : ∃ text ∈ texts, Unreadable H text) (b : List Char) (toks : List Token) :
    ¬ Lexed H (rowText texts ++ ')' :: b) toks := by
  induction texts generalizing toks with
  | nil =>
    obtain ⟨text, hmem, -⟩ := hbad
    cases hmem
  | cons text texts ih =>
    intro hlexes
    cases texts with
    | nil =>
      obtain ⟨text', hmem, hunread⟩ := hbad
      rw [mem_singleton] at hmem
      subst hmem
      exact hunread ')' b rfl toks hlexes
    | cons text' texts =>
      rw [rowText_cons_cons, append_assoc, append_assoc] at hlexes
      rcases h text mem_cons_self with hunread | ⟨toks', htoks'⟩
      · exact hunread ',' _ rfl toks hlexes
      · obtain ⟨tb, htb⟩ := lexes_of_append hhost htoks' hlexes (joins_separator rfl)
        obtain ⟨tc, htc⟩ := lexes_of_append hhost lexes_commaSpace htb (joins_of_closed rfl)
        by_cases hunread : Unreadable H text
        · exact hunread ',' _ rfl toks hlexes
        · refine ih (forall_mem_cons.mp h).2 ?_ tc htc
          obtain ⟨t, hmem, ht⟩ := hbad
          rcases mem_cons.mp hmem with rfl | hmem
          · exact absurd ht hunread
          · exact ⟨t, hmem, ht⟩

/-! ## Table names -/

/-- The tokens of a table name: a word, or two words with a dot between them. A name in the schema
`dbo` is known without it. -/
inductive NameTokens : String → List Token → Prop
  | plain {name : String} {tok : Token} (h : nameToken tok = some name) : NameTokens name [tok]
  | qualified {schema name : String} {tok tok' : Token} (hschema : nameToken tok = some schema)
    (hname : nameToken tok' = some name) (hdbo : schema ≠ "dbo") :
    NameTokens (schema ++ "." ++ name) [tok, .op ".", tok']

theorem dmlName_of_nameTokens {rest : List Token} (h : NameTokens name toks)
    (hrest : rest.head? ≠ some (.op ".")) : dmlName H (toks ++ rest) = .ok (name, rest) := by
  cases h with
  | plain h =>
    rw [singleton_append, dmlName, h]
    simp only
    split
    · next rest' => exact absurd rfl hrest
    · rfl
  | qualified hschema hname =>
    simp only [cons_append, nil_append, dmlName, hschema, hname]

/-! ## INSERT -/

/-- The words in front of the table name and behind it, character by character. -/
def insertInto : List Char := ['I', 'N', 'S', 'E', 'R', 'T', ' ', 'I', 'N', 'T', 'O', ' ']

def valuesOpen : List Char := [' ', 'V', 'A', 'L', 'U', 'E', 'S', ' ', '(']

/-- The INSERT statement of one row; `tail` is what is written behind it. -/
def rowInsertText (name : String) (texts : List String) (tail : List Char) : List Char :=
  insertInto ++ (name.toList ++ (valuesOpen ++ (rowText texts ++ ')' :: tail)))

theorem toList_rowInsertText {tail : List Char} :
    (String.ofList (rowInsertText name texts tail)).toList = rowInsertText name texts tail :=
  String.toList_ofList

theorem ofList_rowInsertText :
    String.ofList (rowInsertText name texts []) =
      "INSERT INTO " ++ name ++ " VALUES (" ++ ", ".intercalate texts ++ ")" := by
  refine String.toList_inj.mp (toList_rowInsertText.trans ?_)
  simp only [String.toList_append, append_assoc]
  rfl

/-- Texts with a space between them. -/
theorem lexes_spaced (hhost : AsciiHost H) {a b : List Char} {ta tb : List Token}
    (ha : Lexed H a ta) (hb : Lexed H b tb) : Lexed H (a ++ ' ' :: b) (ta ++ tb) :=
  lexes_append hhost ha (lexes_space hb) (joins_separator rfl)

theorem lexes_words (hhost : AsciiHost H) (v w : String) (hv : Lexed H v.toList [.keyword v])
    (hw : Lexed H w.toList [.keyword w]) :
    Lexed H (v.toList ++ ' ' :: (w.toList ++ [' '])) [.keyword v, .keyword w] :=
  lexes_spaced hhost hv (lexes_spaced hhost hw .nil)

theorem lexes_insertInto (hhost : AsciiHost H) :
    Lexed H insertInto [.keyword "INSERT", .keyword "INTO"] :=
  lexes_words hhost "INSERT" "INTO" (lexes_keyword hhost (by decide) (by decide))
    (lexes_keyword hhost (by decide) (by decide))

theorem lexes_valuesOpen (hhost : AsciiHost H) :
    Lexed H valuesOpen [.keyword "VALUES", .lparen] := by
  have hvalues : Lexed H "VALUES".toList [.keyword "VALUES"] :=
    lexes_keyword hhost (by decide) (by decide)
  exact lexes_space (lexes_spaced hhost hvalues (lexes_lparen .nil))

section Statement

variable {name : String} {nameToks : List Token} (hhost : AsciiHost H)
  (hlexes : Lexed H name.toList nameToks)
include hhost hlexes

/-- The statement up to the row. -/
theorem lexes_insertHead {tb : List Token} (hb : Lexed H b tb) :
    Lexed H (insertInto ++ (name.toList ++ (valuesOpen ++ b)))
      ([.keyword "INSERT", .keyword "INTO"] ++
        (nameToks ++ ([.keyword "VALUES", .lparen] ++ tb))) :=
  lexes_append hhost (lexes_insertInto hhost)
    (lexes_append hhost hlexes
      (lexes_append hhost (lexes_valuesOpen hhost) hb (joins_of_closed rfl))
      (joins_separator rfl))
    (joins_of_closed rfl)

variable {tail : List Char} {tailToks : List Token}

/-- The tokens of an INSERT whose values can be read. -/
theorem tokenize_rowInsertText (cells : List Cell) (h : ∀ x ∈ cells, ReadsAs H x.text x.tok x.value)
    (htail : Lexed H tail tailToks) :
    tokenize H (String.ofList (rowInsertText name (cells.map Cell.text) tail)) =
      .ok ([.keyword "INSERT", .keyword "INTO"] ++ (nameToks ++ ([.keyword "VALUES", .lparen] ++
        ((cells.map Cell.tok).intersperse .comma ++ .rparen :: (tailToks ++ [.eof]))))) := by
  have hclose : Lexed H (')' :: tail) (.rparen :: tailToks) :=
    lexes_rparen htail
  have hrow := lexes_insertHead hhost hlexes
    (lexes_append hhost (lexes_row hhost h) hclose (joins_separator rfl))
  refine (tokenize_of_lexes hhost hrow).trans ?_
  simp only [append_assoc, cons_append]

/-- An INSERT with a value that cannot be read. -/
theorem tokenize_rowInsertText_error
    (h : ∀ text ∈ texts, Unreadable H text ∨ ∃ toks, Lexed H text.toList toks)
    (hbad : ∃ text ∈ texts, Unreadable H text) (tail : List Char) :
    ∃ e, tokenize H (String.ofList (rowInsertText name texts tail)) = .error e := by
  rcases htok : tokenize H (String.ofList (rowInsertText name texts tail)) with e | toks
  · exact ⟨e, rfl⟩
  · obtain ⟨ts, hts, -⟩ := (tokenize_eq_ok_iff hhost).mp htok
    rw [toList_rowInsertText] at hts
    obtain ⟨t1, h1⟩ := lexes_of_append hhost (lexes_insertInto hhost) hts (joins_of_closed rfl)
    obtain ⟨t2, h2⟩ := lexes_of_append hhost hlexes h1 (joins_separator rfl)
    obtain ⟨t3, h3⟩ := lexes_of_append hhost (lexes_valuesOpen hhost) h2 (joins_of_closed rfl)
    exact absurd h3 (not_lexes_row hhost h hbad tail t3)

/-- A printed INSERT is not DDL. -/
theorem parseDdl_rowInsertText (h : ∀ x ∈ cells, ReadsAs H x.text x.tok x.value)
    (htail : Lexed H tail tailToks) :
    parseDdl H (String.ofList (rowInsertText name (cells.map Cell.text) tail)) = .ok none := by
  unfold parseDdl
  rw [tokenize_rowInsertText hhost hlexes cells h htail]
  rfl

/-- **A printed INSERT is read back**, one row with the values written. -/
theorem parseDml_rowInsertText (hname : NameTokens name nameToks)
    (h : ∀ x ∈ cells, ReadsAs H x.text x.tok x.value)
    (htail : Lexed H tail tailToks) (hcomma : tailToks.head? ≠ some .comma) :
    parseDml H (String.ofList (rowInsertText name (cells.map Cell.text) tail)) =
      .ok (some (.insert
        { table := name, columns := none, values := [cells.map Cell.value] })) := by
  have hrest : (tailToks ++ [Token.eof]).head? ≠ some .comma := by
    cases tailToks with
    | nil => simp
    | cons tok toks => simpa using hcomma
  have hrow := valueRows_row cells h [] hrest
  unfold parseDml
  rw [tokenize_rowInsertText hhost hlexes cells h htail]
  have hinsert : parseInsert H (.keyword "INTO" :: (nameToks ++ ([.keyword "VALUES", .lparen] ++
      ((cells.map Cell.tok).intersperse .comma ++ .rparen :: (tailToks ++ [.eof]))))) =
      .ok { table := name, columns := none, values := [cells.map Cell.value] } := by
    unfold parseInsert
    simp only [expectKeyword, if_true, bind, Except.bind, pure, Except.pure]
    rw [dmlName_of_nameTokens hname (by simp)]
    simp only [cons_append, nil_append, if_true, valueRows]
    rw [hrow]
    simp
  simp only [cons_append, nil_append, bind, Except.bind] at hinsert ⊢
  rw [hinsert]
  rfl

end Statement

/-! ## CREATE TABLE -/

/-- A column as it is written in CREATE TABLE: the tokens of its type, and the type they stand
for. -/
structure Column where
  text : String
  name : String
  typeToks : List Token
  colType : ColumnType

/-- A column without constraints. -/
def Column.plain (x : Column) : ColumnDef :=
  { name := x.name, colType := x.colType, notNull := false, primaryKey := false, default := none,
    identity := false, references := none }

/-- The tokens that end a column. -/
def endsColumn (tok : Token) : Prop := tok = .comma ∨ tok = .rparen

structure Column.Reads (H : Host) (x : Column) : Prop where
  lexes : Lexes (nextToken H) x.text.toList (.ident x.name :: x.typeToks)
  type : ∀ tok rest, endsColumn tok →
    parseType H (x.typeToks ++ tok :: rest) = .ok (x.colType, tok :: rest)

variable {x : Column} {fuel : Nat} {acc : List ColumnDef} {col : ColumnDef}

theorem columnDef_of_reads (h : x.Reads H) {tok : Token} (htok : endsColumn tok)
    {rest : List Token} :
    columnDef H (.ident x.name :: x.typeToks ++ tok :: rest) = .ok (x.plain, tok :: rest) := by
  rw [cons_append, columnDef, h.type tok rest htok]
  rcases htok with rfl | rfl
  · rfl
  · rfl

theorem columnDefs_comma {rest : List Token}
    (h : columnDef H (.ident name :: toks) = .ok (col, .comma :: rest)) :
    columnDefs H (fuel + 1) acc (.ident name :: toks) = columnDefs H fuel (acc ++ [col]) rest := by
  simp only [columnDefs, h, bind, Except.bind]

theorem columnDefs_rparen {rest : List Token}
    (h : columnDef H (.ident name :: toks) = .ok (col, .rparen :: rest)) :
    columnDefs H (fuel + 1) acc (.ident name :: toks) = .ok (acc ++ [col]) := by
  simp only [columnDefs, h, bind, Except.bind]

/-- The tokens between the parentheses. -/
def columnToks (cols : List Column) : List Token :=
  [Token.comma].intercalate (cols.map fun x => .ident x.name :: x.typeToks)

theorem columnToks_cons_cons {x y : Column} {cols : List Column} :
    columnToks (x :: y :: cols) =
      .ident x.name :: (x.typeToks ++ .comma :: columnToks (y :: cols)) := by
  simp [columnToks, intercalate_cons_cons]

theorem columnToks_singleton : columnToks [x] = .ident x.name :: x.typeToks := by
  simp [columnToks, List.intercalate]

theorem length_le_columnToks (cols : List Column) : cols.length ≤ (columnToks cols).length := by
  induction cols with
  | nil => exact Nat.le_refl _
  | cons x cols ih =>
    cases cols with
    | nil => simp [columnToks_singleton]
    | cons y cols =>
      rw [columnToks_cons_cons]
      simp only [length_cons, length_append] at ih ⊢
      omega

/-- The parser takes the columns apart again. -/
theorem columnDefs_of_reads (cols : List Column) (h : ∀ x ∈ cols, x.Reads H) (acc : List ColumnDef)
    (rest : List Token) (hfuel : cols.length < fuel) :
    columnDefs H fuel acc (columnToks cols ++ .rparen :: rest) =
      .ok (acc ++ cols.map Column.plain) := by
  induction cols generalizing acc fuel with
  | nil =>
    obtain ⟨fuel, rfl⟩ : ∃ k, fuel = k + 1 := ⟨fuel - 1, by omega⟩
    simp [columnDefs, columnToks, List.intercalate]
  | cons x cols ih =>
    obtain ⟨fuel, rfl⟩ : ∃ k, fuel = k + 1 := ⟨fuel - 1, by omega⟩
    have hx := h x mem_cons_self
    cases cols with
    | nil =>
      rw [columnToks_singleton]
      exact columnDefs_rparen (columnDef_of_reads hx (.inr rfl))
    | cons y cols =>
      have hfuel' : (y :: cols).length < fuel := by simpa using hfuel
      have ih := ih (forall_mem_cons.mp h).2 (acc ++ [x.plain]) hfuel'
      rw [columnToks_cons_cons, cons_append, append_assoc, cons_append]
      refine (columnDefs_comma (columnDef_of_reads hx (.inl rfl))).trans ?_
      rw [ih]
      simp

theorem ddlName_of_nameTokens {rest : List Token} (h : NameTokens name toks)
    (hrest : rest.head? ≠ some (.op ".")) :
    ∃ schema table, ddlName H (toks ++ rest) = .ok ((schema, table), rest) ∧
      fullName schema table = name := by
  cases h with
  | plain h =>
    refine ⟨"dbo", name, ?_, rfl⟩
    rw [singleton_append, ddlName, h]
    simp only
    split
    · next rest' => exact absurd rfl hrest
    · rfl
  | @qualified schema table tok tok' hschema hname hdbo =>
    refine ⟨schema, table, ?_, if_neg hdbo⟩
    simp only [cons_append, nil_append, ddlName, hschema, hname]

/-- The words in front of the table name. -/
def createTable : List Char := ['C', 'R', 'E', 'A', 'T', 'E', ' ', 'T', 'A', 'B', 'L', 'E', ' ']

/-- `CREATE TABLE name (columns);` -/
def createText (name : String) (cols : List String) : List Char :=
  createTable ++ (name.toList ++ (' ' :: '(' :: (rowText cols ++ [')', ';'])))

theorem lexes_createTable (hhost : AsciiHost H) :
    Lexed H createTable [.keyword "CREATE", .keyword "TABLE"] :=
  lexes_words hhost "CREATE" "TABLE" (lexes_keyword hhost (by decide) (by decide))
    (lexes_keyword hhost (by decide) (by decide))

/-- The statement that is read back. -/
def readCreate (schema table : String) (cols : List Column) : CreateTable :=
  { schema, name := table, columns := cols.map Column.plain, ifNotExists := false }

/-- **A printed CREATE TABLE is read back.** -/
theorem parseDdl_createText (hhost : AsciiHost H) {nameToks : List Token}
    (hlexes : Lexed H name.toList nameToks) (hname : NameTokens name nameToks)
    (hif : nameToks.head? ≠ some (.keyword "IF")) (cols : List Column) (h : ∀ x ∈ cols, x.Reads H) :
    ∃ schema table, fullName schema table = name ∧
      parseDdl H (String.ofList (createText name (cols.map Column.text))) =
        .ok (some (.create (readCreate schema table cols))) := by
  have hsemicolon : Lexed H [';'] [.semicolon] :=
    .step (show nextToken H ';' [] = .ok (some .semicolon, []) from rfl) .nil
  have hrow :=
    lexes_parts hhost (cols.map fun x => (x.text, .ident x.name :: x.typeToks)) fun p hp => by
    obtain ⟨x, hx, rfl⟩ := mem_map.mp hp
    exact (h x hx).lexes
  rw [map_map, map_map] at hrow
  have hcols : Lexed H (' ' :: '(' :: (rowText (cols.map Column.text) ++ [')', ';']))
      (.lparen :: (columnToks cols ++ [.rparen, .semicolon])) :=
    lexes_space (lexes_lparen (lexes_append hhost hrow (lexes_rparen hsemicolon)
      (joins_separator rfl)))
  have hall := lexes_append hhost (lexes_createTable hhost)
    (lexes_append hhost hlexes hcols (joins_separator rfl)) (joins_of_closed rfl)
  have htok := tokenize_of_lexes hhost hall
  have hhead : (Token.lparen :: (columnToks cols ++ [.rparen, .semicolon, .eof])).head? ≠
      some (.op ".") := by simp
  obtain ⟨schema, table, hddl, hfull⟩ := ddlName_of_nameTokens (H := H) hname hhead
  refine ⟨schema, table, hfull, ?_⟩
  have hfuel : cols.length < (columnToks cols ++ [Token.rparen, .semicolon, .eof]).length + 1 := by
    have := length_le_columnToks cols
    rw [length_append]
    omega
  have hdefs := columnDefs_of_reads cols h [] [.semicolon, .eof] hfuel
  have hcreate : parseCreateTable H (nameToks ++ .lparen ::
      (columnToks cols ++ [.rparen, .semicolon, .eof])) = .ok (readCreate schema table cols) := by
    have hexists : ifNotExists H false (nameToks ++ .lparen ::
        (columnToks cols ++ [.rparen, .semicolon, .eof])) = .ok (false, nameToks ++ .lparen ::
        (columnToks cols ++ [.rparen, .semicolon, .eof])) := by
      unfold ifNotExists
      split
      · next heq =>
        cases nameToks with
        | nil => cases hname
        | cons tok toks =>
          rw [cons_append, List.cons.injEq] at heq
          exact absurd (by rw [heq.1]; rfl) hif
      · rfl
    simp only [parseCreateTable, hexists, hddl, bind, Except.bind, hdefs]
    rfl
  unfold parseDdl
  rw [show tokenize H (String.ofList (createText name (cols.map Column.text))) = _ from htok]
  simp only [cons_append, nil_append, append_assoc, bind, Except.bind] at hcreate ⊢
  simp only [parseCreate, hcreate, bind, Except.bind, pure, Except.pure]

end TensorVault.Sql
