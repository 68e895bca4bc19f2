import TensorVault.Sql.Lexer
import TensorVault.Lib.Lexer

/-!
# Texts that are tokenized apart

`tokenize` reads the tokens of two texts one after the other if the first ends, or the second
begins, with a character that no token reaches across (`Joins`). Names, numbers, literals and
two-character operators are the tokens that could.
-/

namespace TensorVault.Sql

variable {c : Char} {rest b cs a rest' : List Char} {tok : Token}

open Text Lexer List

/-- Characters that end every token before them and are tokens of their own, or white space. -/
def isSeparator (c : Char) : Bool :=
  c == ' ' || c == '\t' || c == '\n' || c == '\r' || c == '(' || c == ')' || c == ',' || c == ';' ||
    c == '*' || c == '/'

/-- Characters that end the token they are in. -/
def isCloser (c : Char) : Bool := isSeparator c || c == '='

/-- No token of the first text can reach into the second. -/
def Joins (a b : List Char) : Prop :=
  ∀ x y b', a.getLast? = some x → b = y :: b' → isCloser x = true ∨ isSeparator y = true

theorem Joins.suffix {a' : List Char} (h : a' <:+ a) (hjoins : Joins a b) : Joins a' b := by
  intro x y b' hx hb
  obtain ⟨pre, rfl⟩ := h
  refine hjoins x y b' ?_ hb
  rw [getLast?_append, hx]
  rfl

theorem joins_nil : Joins a [] := fun _ _ _ _ h => by cases h

theorem isCloser_of_isSeparator (h : isSeparator c = true) : isCloser c = true := by
  rw [isCloser, h]
  rfl

/-- The characters that close a token, one by one. -/
theorem forall_isCloser {p : Char → Prop}
    (hp : ∀ d ∈ [' ', '\t', '\n', '\r', '(', ')', ',', ';', '*', '/', '='], p d)
    (h : isCloser c = true) : p c :=
  hp c (by simpa [isCloser, isSeparator, or_assoc] using h)

variable {p : Char → Bool} {y : Char} {acc : List Char} {s : String}

/-- A character that may stand in a run does not close it. -/
theorem not_isCloser (hp : ∀ x, isCloser x = true → p x = false)
    (hc : p c = true) : isCloser c = false := by
  by_contra hclose
  rw [hp c (by simpa using hclose)] at hc
  cases hc

/-- What follows a character that closes nothing is nothing or a separator. -/
theorem Joins.head (hc : isCloser c = false) (h : Joins [c] (y :: b)) : isSeparator y = true := by
  rcases h c y b rfl rfl with hclose | hsep
  · cases hc.symm.trans hclose
  · exact hsep

/-- The second text does not begin with a character that the first was not followed by. -/
theorem Joins.append_ne {d : Char} (hjoins : Joins (c :: rest) b) (hc : isCloser c = false)
    (hd : isSeparator d = false) (hrest : ∀ rest', rest ≠ d :: rest') {b' : List Char} :
    rest ++ b ≠ d :: b' := by
  intro heq
  cases rest with
  | nil =>
    obtain rfl : b = d :: b' := heq
    rw [hjoins.head hc] at hd
    cases hd
  | cons x rest =>
    cases heq
    exact hrest _ rfl

/-- A run of characters is not continued in the second text. -/
theorem Joins.span (hp : ∀ x, isCloser x = true → p x = false) (hc : isCloser c = false)
    (h : Joins (c :: rest) b) :
    (rest ++ b).takeWhile p = rest.takeWhile p ∧
      (rest ++ b).dropWhile p = rest.dropWhile p ++ b := by
  induction rest generalizing c with
  | nil =>
    cases b with
    | nil => exact ⟨rfl, rfl⟩
    | cons y b =>
      have hy : p y = false := hp y (isCloser_of_isSeparator (h.head hc))
      simp [hy]
  | cons d rest ih =>
    by_cases hd : p d = true
    · obtain ⟨htake, hdrop⟩ := ih (not_isCloser hp hd) (h.suffix (suffix_cons _ _))
      simp [hd, htake, hdrop]
    · simp [hd]

/-! ## Literals -/

theorem readStringLiteral_end (h : ∀ y rest', rest = y :: rest' → y ≠ '\'') :
    readStringLiteral acc ('\'' :: rest) = .ok (String.ofList acc, rest) := by
  cases rest with
  | nil => simp [readStringLiteral]
  | cons y rest => simp [readStringLiteral, h y rest rfl]

theorem readStringLiteral_cons_of_ne (h : c ≠ '\'') :
    readStringLiteral acc (c :: rest) = readStringLiteral (acc ++ [c]) rest := by
  simp [readStringLiteral, h]

theorem readStringLiteral_append (h : readStringLiteral acc cs = .ok (s, rest))
    (hjoins : Joins cs b) : readStringLiteral acc (cs ++ b) = .ok (s, rest ++ b) ∧ rest <:+ cs := by
  fun_induction readStringLiteral acc cs with
  | case1 => cases h
  | case2 acc cs ih =>
    have hsuffix := suffix_append ['\'', '\''] cs
    obtain ⟨hstep, hrest⟩ := ih h (hjoins.suffix hsuffix)
    exact ⟨by simpa [readStringLiteral] using hstep, hrest.trans hsuffix⟩
  | case3 acc cs hne =>
    cases h
    refine ⟨readStringLiteral_end fun y rest' heq => ?_, suffix_cons _ _⟩
    rintro rfl
    exact hjoins.append_ne rfl rfl hne heq
  | case4 acc c cs hquote hne ih =>
    have hsuffix := suffix_cons c cs
    obtain ⟨hstep, hrest⟩ := ih h (hjoins.suffix hsuffix)
    rw [cons_append, readStringLiteral_cons_of_ne fun hc => hne hc]
    exact ⟨hstep, hrest.trans hsuffix⟩

variable {acc : List Nat} {bytes : List UInt8} {H : Host} {e : Char}

theorem readHexLiteral_append (h : readHexLiteral H acc cs = .ok (bytes, rest)) :
    readHexLiteral H acc (cs ++ b) = .ok (bytes, rest ++ b) ∧ rest <:+ cs := by
  induction cs generalizing acc with
  | nil => cases h
  | cons c cs ih =>
    rw [readHexLiteral] at h
    rw [cons_append, readHexLiteral]
    split at h
    · next hquote =>
      rw [if_pos hquote]
      split at h
      · next heven =>
        cases h
        exact ⟨if_pos heven, suffix_cons _ _⟩
      · cases h
    · next hquote =>
      rw [if_neg hquote]
      rcases hdigit : hexDigit c with - | d
      · rw [hdigit] at h
        cases h
      · rw [hdigit] at h
        exact ⟨(ih h).1, (ih h).2.trans (suffix_cons _ _)⟩

/-! ## Numbers -/

theorem isDigit_of_isCloser (h : isCloser c = true) : c.isDigit = false :=
  forall_isCloser (p := (·.isDigit = false)) (by decide) h

/-- The characters of a number before its exponent. -/
abbrev isNumChar (c : Char) : Bool := c.isDigit || c == '.'

theorem isNumChar_of_isCloser (h : isCloser c = true) : isNumChar c = false :=
  forall_isCloser (p := (isNumChar · = false)) (by decide) h

theorem readExponent_of_ne (h : ¬ (e = 'e' ∨ e = 'E')) :
    readExponent (e :: rest) = ([], e :: rest) := by
  cases rest <;> simp [readExponent, h]

theorem readExponent_sign {s : Char} (he : e = 'e' ∨ e = 'E') (hs : s = '+' ∨ s = '-') :
    readExponent (e :: s :: rest) =
      (e :: s :: rest.takeWhile Char.isDigit, rest.dropWhile Char.isDigit) := by
  simp [readExponent, he, hs]

theorem readExponent_digits (he : e = 'e' ∨ e = 'E')
    (h : ∀ s rest', rest = s :: rest' → ¬ (s = '+' ∨ s = '-')) :
    readExponent (e :: rest) = (e :: rest.takeWhile Char.isDigit, rest.dropWhile Char.isDigit) := by
  cases rest with
  | nil => simp [readExponent, he]
  | cons s rest => simp [readExponent, he, h s rest rfl]

/-- The exponent of a number, behind a character `c` of its mantissa. -/
theorem readExponent_append (hc : isCloser c = false) (hjoins : Joins (c :: cs) b) :
    readExponent (cs ++ b) = ((readExponent cs).1, (readExponent cs).2 ++ b) ∧
      (readExponent cs).2 <:+ cs := by
  cases cs with
  | nil =>
    cases b with
    | nil => exact ⟨rfl, nil_suffix⟩
    | cons y b =>
      have hy := hjoins.head hc
      rw [nil_append, readExponent_of_ne]
      · exact ⟨rfl, nil_suffix⟩
      · rintro (rfl | rfl) <;> cases hy
  | cons e rest =>
    have hsuffix := suffix_cons e rest
    have hrest := hjoins.suffix (suffix_cons _ _)
    rw [cons_append]
    by_cases he : e = 'e' ∨ e = 'E'
    · have hclose : isCloser e = false := by rcases he with rfl | rfl <;> rfl
      by_cases hsign : ∃ s rest', rest = s :: rest' ∧ (s = '+' ∨ s = '-')
      · obtain ⟨s, rest', rfl, hs⟩ := hsign
        have hclose' : isCloser s = false := by rcases hs with rfl | rfl <;> rfl
        obtain ⟨htake, hdrop⟩ := (hrest.suffix (suffix_cons _ _)).span
          (fun _ => isDigit_of_isCloser) hclose'
        rw [cons_append, readExponent_sign he hs, readExponent_sign he hs, htake, hdrop]
        exact ⟨rfl, (dropWhile_suffix _).trans ((suffix_cons _ _).trans hsuffix)⟩
      · obtain ⟨htake, hdrop⟩ := hrest.span (fun _ => isDigit_of_isCloser) hclose
        rw [readExponent_digits he fun s rest' heq hs => hsign ⟨s, rest', heq, hs⟩,
          readExponent_digits he, htake, hdrop]
        · exact ⟨rfl, (dropWhile_suffix _).trans hsuffix⟩
        · intro s b' heq hs
          have hsep : isSeparator s = false := by rcases hs with rfl | rfl <;> rfl
          exact hrest.append_ne hclose hsep (fun rest' heq => hsign ⟨s, rest', heq, hs⟩) heq
    · rw [readExponent_of_ne he, readExponent_of_ne he]
      exact ⟨rfl, suffix_refl _⟩

/-- The character before the place where a run of characters ends. -/
theorem exists_before_dropWhile (hp : ∀ x, isCloser x = true → p x = false)
    (hc : isCloser c = false) :
    ∃ c', isCloser c' = false ∧ c' :: rest.dropWhile p <:+ c :: rest := by
  induction rest generalizing c with
  | nil => exact ⟨c, hc, suffix_refl _⟩
  | cons d rest ih =>
    by_cases hd : p d = true
    · obtain ⟨c', hc', hsuffix⟩ := ih (not_isCloser hp hd)
      rw [dropWhile_cons_of_pos hd]
      exact ⟨c', hc', hsuffix.trans (suffix_cons _ _)⟩
    · rw [dropWhile_cons_of_neg hd]
      exact ⟨c, hc, suffix_refl _⟩

/-- A number is decided by its mantissa and its exponent. -/
theorem readNumber_congr {cs' : List Char} (h : readNumber H cs = .ok (tok, rest'))
    (hmantissa : cs'.takeWhile isNumChar = cs.takeWhile isNumChar)
    (hexponent : (readExponent (cs'.dropWhile isNumChar)).1 =
      (readExponent (cs.dropWhile isNumChar)).1) :
    readNumber H cs' = .ok (tok, (readExponent (cs'.dropWhile isNumChar)).2) := by
  unfold readNumber at h ⊢
  simp only at h ⊢
  rw [hmantissa, hexponent]
  split at h <;> rename_i hfloat
  all_goals
    simp only [hfloat, if_true, Bool.false_eq_true, if_false]
    split at h
    · next hparse =>
      cases h
      rw [hparse]
    · cases h

/-- The mantissa and the exponent of a number are not continued in the second text. -/
theorem readNumber_span (hc : isNumChar c = true) (hjoins : Joins (c :: rest) b) :
    (c :: (rest ++ b)).takeWhile isNumChar = (c :: rest).takeWhile isNumChar ∧
      readExponent ((c :: (rest ++ b)).dropWhile isNumChar) =
        ((readExponent ((c :: rest).dropWhile isNumChar)).1,
          (readExponent ((c :: rest).dropWhile isNumChar)).2 ++ b) ∧
      (readExponent ((c :: rest).dropWhile isNumChar)).2 <:+ rest := by
  have hclose : isCloser c = false := not_isCloser (fun _ => isNumChar_of_isCloser) hc
  obtain ⟨htake, hdrop⟩ := hjoins.span (fun _ => isNumChar_of_isCloser) hclose
  obtain ⟨c', hc', hsuffix⟩ := exists_before_dropWhile (fun _ => isNumChar_of_isCloser) hclose
  obtain ⟨hexp, hleft⟩ := readExponent_append hc' (hjoins.suffix hsuffix)
  simp only [takeWhile_cons_of_pos hc, dropWhile_cons_of_pos hc, htake, hdrop]
  exact ⟨trivial, hexp, hleft.trans (dropWhile_suffix _)⟩

theorem readNumber_append (hc : isNumChar c = true)
    (h : readNumber H (c :: rest) = .ok (tok, rest')) (hjoins : Joins (c :: rest) b) :
    readNumber H (c :: (rest ++ b)) = .ok (tok, rest' ++ b) ∧ rest' <:+ rest := by
  obtain ⟨hmantissa, hexp, hleft⟩ := readNumber_span hc hjoins
  have hrest := h.symm.trans (readNumber_congr h rfl rfl)
  obtain rfl := (Prod.mk.inj (Except.ok.inj hrest)).2
  refine ⟨(readNumber_congr h hmantissa ?_).trans ?_, hleft⟩
  · rw [hexp]
  · rw [hexp]

/-- The number that joined texts begin with is one of the first text. -/
theorem readNumber_of_append (hc : isNumChar c = true)
    (h : readNumber H (c :: (rest ++ b)) = .ok (tok, rest')) (hjoins : Joins (c :: rest) b) :
    readNumber H (c :: rest) = .ok (tok, (readExponent ((c :: rest).dropWhile isNumChar)).2) := by
  obtain ⟨hmantissa, hexp, -⟩ := readNumber_span hc hjoins
  refine readNumber_congr h hmantissa.symm ?_
  rw [hexp]

/-! ## Tokens -/

/-- The host classifies ASCII characters as usual, and its upper case is that of ASCII. -/
structure AsciiHost (H : Host) : Prop where
  alphanumeric : ∀ c : Char, c.toNat < 128 → H.isAlphanumeric c = c.isAlphanum
  uppercase : ∀ s : String, (∀ c ∈ s.toList, c.toNat < 128) →
    H.toUppercase s = String.ofList (s.toList.map Char.toUpper)

theorem asciiHost_ascii : AsciiHost .ascii where
  alphanumeric := fun _ _ => rfl
  uppercase := fun _ _ => rfl

theorem isIdentChar_of_isCloser (hhost : AsciiHost H) (h : isCloser c = true) :
    isIdentChar H c = false := by
  have hall : ∀ d ∈ [' ', '\t', '\n', '\r', '(', ')', ',', ';', '*', '/', '='],
      d.toNat < 128 ∧ (d.isAlphanum || d == '_') = false := by decide
  obtain ⟨hascii, hword⟩ := forall_isCloser hall h
  rwa [isIdentChar, hhost.alphanumeric _ hascii]

theorem not_isCloser_of_isWord (h : (c.isAlpha || c == '_') = true) : isCloser c = false :=
  not_isCloser (p := fun c => c.isAlpha || c == '_')
    (fun _ => forall_isCloser (p := fun c => (c.isAlpha || c == '_') = false) (by decide)) h

variable {H : Host} {ta : List Token}

section Step

variable {c : Char} {rest rest' b : List Char} {tok : Option Token}

/-- A token of one character. -/
theorem step_single {t : Option Token}
    (h : (.ok (t, rest) : Except String (Option Token × List Char)) = .ok (tok, rest')) :
    (.ok (t, rest ++ b) : Except String (Option Token × List Char)) = .ok (tok, rest' ++ b) ∧
      rest' <:+ rest := by
  cases h
  exact ⟨rfl, suffix_refl _⟩

/-- One test of the lexer on both texts. -/
theorem step_ite {p : Prop} [Decidable p] {x y x' y' : Except String (Option Token × List Char)}
    (hpos : p → x = .ok (tok, rest') → x' = .ok (tok, rest' ++ b) ∧ rest' <:+ rest)
    (hneg : ¬ p → y = .ok (tok, rest') → y' = .ok (tok, rest' ++ b) ∧ rest' <:+ rest)
    (h : (if p then x else y) = .ok (tok, rest')) :
    (if p then x' else y') = .ok (tok, rest' ++ b) ∧ rest' <:+ rest := by
  split at h
  · next hp => rw [if_pos hp]; exact hpos hp h
  · next hp => rw [if_neg hp]; exact hneg hp h

/-- A turn of the lexer leaves an end of the text, and is the same if more text is joined. -/
theorem nextToken_append (hhost : AsciiHost H) (h : nextToken H c rest = .ok (tok, rest'))
    (hjoins : Joins (c :: rest) b) :
    nextToken H c (rest ++ b) = .ok (tok, rest' ++ b) ∧ rest' <:+ rest := by
  unfold nextToken at h ⊢
  revert h
  -- white space, parentheses and the like
  iterate 6 refine step_ite (fun _ => step_single) fun _ => ?_
  refine step_ite (fun hbang h => ?_) fun _ => ?_
  · split at h
    · cases h
      exact ⟨rfl, suffix_cons _ _⟩
    · cases h
  refine step_ite (fun hless h => ?_) fun _ => ?_
  · have hc : isCloser c = false := by rw [hless]; rfl
    split at h
    · cases h
      exact ⟨rfl, suffix_cons _ _⟩
    · cases h
      exact ⟨rfl, suffix_cons _ _⟩
    · next hle hne =>
      split
      · next heq => exact absurd heq (hjoins.append_ne hc rfl hle)
      · next heq => exact absurd heq (hjoins.append_ne hc rfl hne)
      · exact step_single h
  refine step_ite (fun hgreater h => ?_) fun _ => ?_
  · have hc : isCloser c = false := by rw [hgreater]; rfl
    split at h
    · cases h
      exact ⟨rfl, suffix_cons _ _⟩
    · next hge =>
      split
      · next heq => exact absurd heq (hjoins.append_ne hc rfl hge)
      · exact step_single h
  refine step_ite (fun _ => step_single) fun _ => ?_
  refine step_ite (fun hquote h => ?_) fun _ => ?_
  · split at h
    · next s rest'' hread =>
      cases h
      obtain ⟨hstep, hrest⟩ := readStringLiteral_append hread (hjoins.suffix (suffix_cons _ _))
      exact ⟨by rw [hstep], hrest⟩
    · cases h
  refine step_ite (fun hdigit h => ?_) fun _ => ?_
  · have hnum : isNumChar c = true := by rw [isNumChar, hdigit]; rfl
    split at h
    · next t rest'' hread =>
      cases h
      obtain ⟨hstep, hrest⟩ := readNumber_append hnum hread hjoins
      exact ⟨by rw [hstep], hrest⟩
    · cases h
  refine step_ite (fun hdot h => ?_) fun _ h => ?_
  · have hc : isCloser c = false := by rw [hdot]; rfl
    have hnum : isNumChar c = true := by rw [hdot]; rfl
    cases rest with
    | nil =>
      cases b with
      | nil => exact step_single h
      | cons y b =>
        have hy := isDigit_of_isCloser (isCloser_of_isSeparator (hjoins.head hc))
        simp only [nil_append, hy, Bool.false_eq_true, if_false]
        exact step_single h
    | cons d rest =>
      refine step_ite (fun hd h => ?_) (fun _ => step_single) h
      split at h
      · next t rest'' hread =>
        cases h
        obtain ⟨hstep, hrest⟩ := readNumber_append hnum hread hjoins
        exact ⟨by rw [hstep], hrest⟩
      · cases h
  by_cases hhex : (c = 'x' ∨ c = 'X') ∧ rest.head? = some '\''
  · rw [if_pos hhex] at h
    obtain ⟨hx, hhead⟩ := hhex
    obtain ⟨rest, rfl⟩ : ∃ r, rest = '\'' :: r := by
      cases rest with
      | nil => cases hhead
      | cons d rest => exact ⟨rest, by rw [Option.some.inj hhead]⟩
    rw [cons_append, if_pos ⟨hx, rfl⟩]
    simp only [tail_cons] at h ⊢
    split at h
    · next bytes rest'' hread =>
      cases h
      obtain ⟨hstep, hrest⟩ := readHexLiteral_append hread
      exact ⟨by rw [hstep], hrest.trans (suffix_cons _ _)⟩
    · cases h
  rw [if_neg hhex] at h
  split at h
  · next hword =>
    have hc : isCloser c = false := not_isCloser_of_isWord hword
    have hhex' : ¬ ((c = 'x' ∨ c = 'X') ∧ (rest ++ b).head? = some '\'') := by
      rintro ⟨hx, hhead⟩
      obtain ⟨b', heq⟩ : ∃ b', rest ++ b = '\'' :: b' := head?_eq_some_iff.mp hhead
      refine hjoins.append_ne hc rfl (fun rest' hrest => hhex ⟨hx, ?_⟩) heq
      rw [hrest]
      rfl
    obtain ⟨htake, hdrop⟩ := hjoins.span (fun _ => isIdentChar_of_isCloser hhost) hc
    rw [if_neg hhex', if_pos hword, htake, hdrop]
    cases h
    exact ⟨rfl, dropWhile_suffix _⟩
  · cases h

end Step

/-- The tokens of a text. -/
abbrev Lexed (H : Host) : List Char → List Token → Prop := Lexes (nextToken H)

theorem nextToken_shrinks (hhost : AsciiHost H) : Shrinks (nextToken H) := fun h =>
  (nextToken_append hhost h joins_nil).2

/-- **Joined texts are tokenized apart.** -/
theorem lexes_append (hhost : AsciiHost H) {tb : List Token} (ha : Lexed H a ta)
    (hb : Lexed H b tb) (h : Joins a b) : Lexed H (a ++ b) (ta ++ tb) :=
  ha.append (J := Joins) (nextToken_shrinks hhost) Joins.suffix
    (fun hnext hj => (nextToken_append hhost hnext hj).1) hb h

/-- If joined texts are tokenized and the first one is by itself, then so is the second. -/
theorem lexes_of_append (hhost : AsciiHost H) {tab : List Token} (ha : Lexed H a ta)
    (hab : Lexed H (a ++ b) tab) (h : Joins a b) : ∃ tb, Lexed H b tb :=
  ha.of_append (J := Joins) (nextToken_shrinks hhost) Joins.suffix
    (fun hnext hj => (nextToken_append hhost hnext hj).1) hab h

/-- A separator behind a text keeps it apart. -/
theorem joins_separator (h : isSeparator y = true) : Joins a (y :: b) := by
  intro x y' b' _ heq
  cases heq
  exact .inr h

/-- A text that ends with a closing character is kept apart from what follows. -/
theorem joins_of_closed (h : a.getLast?.all isCloser = true) : Joins a b := by
  intro x y b' hx _
  rw [hx] at h
  exact .inl h

theorem tokenizeLoop_eq {fuel : Nat} :
    tokenizeLoop H fuel cs = loop (nextToken H) .eof fuel cs := by
  induction fuel generalizing cs with
  | zero => cases cs <;> rfl
  | succ fuel ih =>
    cases cs with
    | nil => rfl
    | cons c rest =>
      rw [tokenizeLoop, loop]
      rcases nextToken H c rest with e | ⟨tok, rest'⟩
      · rfl
      · simp only [ih]
        rcases loop (nextToken H) .eof fuel rest' with e | toks <;> rfl

theorem tokenize_eq_ok_iff (hhost : AsciiHost H) {input : String} {toks : List Token} :
    tokenize H input = .ok toks ↔
      ∃ ts, Lexed H input.toList ts ∧ toks = ts ++ [.eof] := by
  rw [tokenize, tokenizeLoop_eq]
  exact loop_eq_ok_iff (nextToken_shrinks hhost) (Nat.le_of_eq String.length_toList)

end TensorVault.Sql
