import Mathlib.Data.List.Forall2
import TensorVault.Server.Wire
import TensorVault.Sql.Printing

/-!
# Bound parameters

`substitute_params` puts the text of a parameter in the place of its placeholder, without quoting
it. What a placeholder should become is one literal token that denotes the value (`InjectionFree`).
In a text whose placeholders stand apart (`Delimited`) the values that they refer to decide
(`injectionFree_iff`): each has to be, as SQL, one literal token that denotes it (`Neutral`). Values
that no placeholder refers to do no harm.

The tokens of the substituted text are compared with the prepared ones from the left. As long as the
values are neutral both are read alike (`filled_append`); the first token of the next value then has
to denote it, and only a number does (`neutral_of_denotes`): a string literal cannot contain itself
(`readStringLiteral_self`).
-/

namespace TensorVault.Server

open Text Sql Lexer List

/-! ## What a prepared statement means -/

/-- A token of a prepared text. -/
inductive Piece where
  | token (t : Token)
  | placeholder (n : Nat)
  deriving DecidableEq, Repr

/-- The number written by some digits. -/
def number (digits : List Char) : Nat := Nat.ofDigitChars 10 digits 0

/-- A turn of a lexer that knows placeholders. -/
def nextPiece (H : Host) (c : Char) (rest : List Char) : Except String (Option Piece × List Char) :=
  if c = '$' ∧ (rest.head?.map Char.isDigit).getD false then
    .ok (some (.placeholder (number (rest.takeWhile Char.isDigit))), rest.dropWhile Char.isDigit)
  else
    match nextToken H c rest with
    | .ok (tok, rest') => .ok (tok.map .token, rest')
    | .error e => .error e

/-- The tokens of a prepared text, closed by `EOF`. -/
def prepare (H : Host) (sql : String) : Except String (List Piece) :=
  loop (nextPiece H) (.token .eof) sql.length sql.toList

/-- A bound value: NULL or a text. -/
abbrev Value : Type := Option String

/-- The text that Bind keeps of a value. -/
def Value.text (v : Value) : String := v.getD "NULL"

/-- The value of placeholder `n`; one that was not bound is NULL. -/
def valueAt (values : List Value) (n : Nat) : Value :=
  if 1 ≤ n then values.getD (n - 1) none else none

/-- A token is a literal for a value. -/
def Denotes (H : Host) (tok : Token) : Value → Prop
  | none => tok = .keyword "NULL"
  | some s => tok = .string s ∨ (∃ n, tok = .int n ∧ parseI64 s = some n) ∨
      ∃ bits, tok = .float bits ∧ H.parseF64 s = some bits

/-- A token stands for a piece. -/
def Fills (H : Host) (values : List Value) : Piece → Token → Prop
  | .token t, tok => tok = t
  | .placeholder n, tok => Denotes H tok (valueAt values n)

/-- The substituted text has the tokens of the prepared text, with one literal for each
placeholder. -/
def InjectionFree (H : Host) (checks : Bool) (sql : String) (values : List Value) : Prop :=
  ∀ ps, prepare H sql = .ok ps →
    ∃ out toks, substituteParams checks sql (values.map Value.text) = some out ∧
      tokenize H out = .ok toks ∧ List.Forall₂ (Fills H values) ps toks

/-- The text of a value is itself a literal for the value. -/
def Neutral (H : Host) (s : String) : Prop :=
  ∃ tok, tokenize H s = .ok [tok, .eof] ∧ Denotes H tok (some s)

/-- The texts that the placeholders among some pieces refer to. -/
def RefersTo (values : List Value) (ps : List Piece) (s : String) : Prop :=
  ∃ n, .placeholder n ∈ ps ∧ valueAt values n = some s

/-- The text does not start with white space, and is not empty. -/
def StartsPlain (s : String) : Prop :=
  ∃ c cs, s.toList = c :: cs ∧ ¬ (c = ' ' ∨ c = '\t' ∨ c = '\n' ∨ c = '\r')

/-- A text that `f64::from_str` accepts and that starts with a digit or a point is a number to its
end. -/
def FloatHost (H : Host) : Prop :=
  ∀ s bits, H.parseF64 s = some bits → (∀ c ∈ s.toList.head?, isNumChar c = true) →
    (readExponent (s.toList.dropWhile isNumChar)).2 = []

/-! ## Delimited texts -/

/-- No `$` is followed by a digit. -/
def inert : List Char → Bool
  | c :: d :: rest => !(c == '$' && d.isDigit) && inert (d :: rest)
  | _ => true

/-- Text between placeholders. -/
structure Segment (H : Host) (seg : List Char) : Prop where
  ascii : ∀ c ∈ seg, c.toNat < 0x80
  inert : inert seg = true
  lexes : ∃ toks, Lexes (nextToken H) seg toks

/-- The digits of a placeholder. -/
structure Digits (ds : List Char) : Prop where
  ne_nil : ds ≠ []
  isDigit : ∀ c ∈ ds, c.isDigit = true
  lt : number ds < 2 ^ 64

/-- The text ends with a character that keeps tokens apart, or is empty. -/
def Closes (seg : List Char) : Prop := ∀ x, seg.getLast? = some x → isCloser x = true

/-- The text begins with a character that keeps tokens apart. -/
def Opens (seg : List Char) : Prop := ∃ d seg', seg = d :: seg' ∧ isSeparator d = true

/-- Placeholders, each with the text that follows it. -/
abbrev Tail : Type := List (List Char × List Char)

namespace Tail

def text : Tail → List Char
  | [] => []
  | (ds, seg) :: more => ('$' :: ds) ++ (seg ++ text more)

/-- The text with the values in place. -/
def fill (values : List Value) : Tail → List Char
  | [] => []
  | (ds, seg) :: more => (valueAt values (number ds)).text.toList ++ (seg ++ fill values more)

/-- Every placeholder is set apart from what follows it, and from the placeholder after that. -/
def Delimited (H : Host) : Tail → Prop
  | [] => True
  | (ds, seg) :: more =>
    Digits ds ∧ Segment H seg ∧ (Opens seg ∨ seg = [] ∧ more = []) ∧ (more = [] ∨ Closes seg) ∧
      Delimited H more

end Tail

/-- A text whose placeholders are set apart. -/
def Delimited (H : Host) (sql : String) : Prop :=
  ∃ first tail, sql.toList = first ++ Tail.text tail ∧ Segment H first ∧
    (tail = [] ∨ Closes first) ∧ tail.Delimited H

/-! ## Substitution -/

variable {c : Char} {cs seg : List Char} {values : List Value}

theorem isAsciiDigit_ascii (h : c.toNat < 0x80) :
    isAsciiDigit (UInt8.ofNat c.toNat) = c.isDigit := by
  unfold isAsciiDigit Char.isDigit
  rw [Utf8.toNat_byte (by omega)]
  simp only [UInt32.le_iff_toNat_le, ge_iff_le]
  rfl

/-- The bytes of an ASCII text. -/
def asciiBytes (cs : List Char) : List UInt8 := cs.map fun c => UInt8.ofNat c.toNat

theorem asciiBytes_cons :
    asciiBytes (c :: cs) = UInt8.ofNat c.toNat :: asciiBytes cs := rfl

theorem asciiBytes_append {ds : List Char} :
    asciiBytes (cs ++ ds) = asciiBytes cs ++ asciiBytes ds := map_append

theorem length_asciiBytes : (asciiBytes cs).length = cs.length := length_map _

theorem inert_cons (h : inert (c :: seg) = true) :
    inert seg = true ∧ (c = '$' → (seg.head?.map Char.isDigit).getD false = false) := by
  cases seg with
  | nil => exact ⟨rfl, fun _ => rfl⟩
  | cons d seg =>
    simp only [inert, Bool.and_eq_true, Bool.not_eq_true', Bool.and_eq_false_iff,
      beq_eq_false_iff_ne] at h
    refine ⟨h.2, fun hc => ?_⟩
    rcases h.1 with hne | hdigit
    · exact absurd hc hne
    · exact hdigit

section Substitute

variable (checks : Bool) (params : List String) {fuel : Nat} {rest : List UInt8} {ds : List Char}

theorem substituteLoop_nil : substituteLoop checks params fuel [] = some [] := by
  cases fuel <;> rfl

/-- Text without placeholders is copied, up to the `$` of the next one. -/
theorem substituteLoop_segment (hascii : ∀ c ∈ seg, c.toNat < 0x80) (hinert : inert seg = true)
    (hrest : ∀ b ∈ rest.head?, b = 0x24) (hfuel : seg.length + rest.length ≤ fuel) :
    ∃ fuel', rest.length ≤ fuel' ∧ substituteLoop checks params fuel (asciiBytes seg ++ rest) =
      (substituteLoop checks params fuel' rest).map (seg ++ ·) := by
  induction seg generalizing fuel with
  | nil =>
    refine ⟨fuel, by simpa using hfuel, ?_⟩
    simp [asciiBytes]
  | cons c seg ih =>
    obtain ⟨hc, hseg⟩ := forall_mem_cons.mp hascii
    obtain ⟨hinert', hdollar⟩ := inert_cons hinert
    rw [length_cons] at hfuel
    obtain ⟨n, rfl⟩ : ∃ n, fuel = n + 1 := ⟨fuel - 1, by omega⟩
    obtain ⟨fuel', hle, heq⟩ := ih hseg hinert' (show _ ≤ n by omega)
    have hplain : ¬ (UInt8.ofNat c.toNat = 0x24 ∧
        ((asciiBytes seg ++ rest).head?.map isAsciiDigit).getD false = true) := by
      rintro ⟨hdollar', hdigit⟩
      have hnext := hdollar (by rw [← byteChar_ascii hc, hdollar']; rfl)
      cases seg with
      | nil =>
        rcases rest with - | ⟨b, rest⟩
        · cases hdigit
        · rw [hrest b rfl] at hdigit
          cases hdigit
      | cons d seg =>
        have hd : d.toNat < 0x80 := hseg d mem_cons_self
        change isAsciiDigit (UInt8.ofNat d.toNat) = true at hdigit
        rw [isAsciiDigit_ascii hd] at hdigit
        rw [show ((d :: seg).head?.map Char.isDigit).getD false = d.isDigit from rfl,
          hdigit] at hnext
        cases hnext
    refine ⟨fuel', hle, ?_⟩
    rw [asciiBytes_cons, cons_append, substituteLoop, if_neg hplain, heq, byteChar_ascii hc,
      Option.map_map]
    rfl

theorem takeWhile_asciiBytes (hds : ∀ c ∈ ds, c.isDigit = true)
    (hrest : ∀ b ∈ rest.head?, isAsciiDigit b = false) :
    (asciiBytes ds ++ rest).takeWhile isAsciiDigit = asciiBytes ds ∧
      (asciiBytes ds ++ rest).dropWhile isAsciiDigit = rest := by
  have hall : ∀ b ∈ asciiBytes ds, isAsciiDigit b = true := by
    intro b hb
    obtain ⟨c, hc, rfl⟩ := mem_map.mp hb
    have hrange := toNat_of_isDigit (hds c hc)
    rw [isAsciiDigit_ascii (by omega)]
    exact hds c hc
  have hstop : rest.takeWhile isAsciiDigit = [] ∧ rest.dropWhile isAsciiDigit = rest := by
    rcases rest with - | ⟨b, rest⟩
    · exact ⟨rfl, rfl⟩
    · have hb := hrest b rfl
      simp [hb]
  rw [takeWhile_append_of_pos hall, dropWhile_append_of_pos hall, hstop.1, hstop.2, append_nil]
  exact ⟨rfl, rfl⟩

theorem placeholderNumber_asciiBytes (hds : Digits ds) :
    placeholderNumber checks (asciiBytes ds) = some (number ds) := by
  have hfold : ∀ (cs : List Char) (n : Nat), (∀ c ∈ cs, c.isDigit = true) →
      (asciiBytes cs).foldl (fun n b => n * 10 + (b.toNat - 0x30)) n =
        Nat.ofDigitChars 10 cs n := by
    intro cs
    induction cs with
    | nil =>
      intro n _
      rfl
    | cons c cs ih =>
      intro n hcs
      obtain ⟨hc, hcs⟩ := forall_mem_cons.mp hcs
      have hrange := toNat_of_isDigit hc
      rw [asciiBytes_cons, foldl_cons, ih _ hcs, Nat.ofDigitChars_cons,
        Utf8.toNat_byte (by omega), Nat.mul_comm]
      rfl
  unfold placeholderNumber
  simp only [hfold ds 0 hds.isDigit]
  exact if_pos hds.lt

/-- A placeholder becomes the text of its parameter. -/
theorem substituteLoop_placeholder (hds : Digits ds)
    (hrest : ∀ b ∈ rest.head?, isAsciiDigit b = false) :
    substituteLoop checks params (fuel + 1) (0x24 :: (asciiBytes ds ++ rest)) =
      (substituteLoop checks params fuel rest).map
        ((if 1 ≤ number ds ∧ number ds ≤ params.length then params.getD (number ds - 1) ""
          else "NULL").toList ++ ·) := by
  obtain ⟨htake, hdrop⟩ := takeWhile_asciiBytes hds.isDigit hrest
  obtain ⟨d, ds', rfl⟩ := exists_cons_of_ne_nil hds.ne_nil
  have hd := hds.isDigit d mem_cons_self
  have hrange := toNat_of_isDigit hd
  have hhead : ((asciiBytes (d :: ds') ++ rest).head?.map isAsciiDigit).getD false = true := by
    change isAsciiDigit (UInt8.ofNat d.toNat) = true
    rwa [isAsciiDigit_ascii (by omega)]
  rw [substituteLoop, if_pos ⟨rfl, hhead⟩, htake, hdrop, placeholderNumber_asciiBytes checks hds]

end Substitute

theorem text_valueAt {n : Nat} :
    (if 1 ≤ n ∧ n ≤ (values.map Value.text).length then (values.map Value.text).getD (n - 1) ""
      else "NULL") = (valueAt values n).text := by
  unfold valueAt
  rw [length_map]
  by_cases hpos : 1 ≤ n
  · rw [if_pos hpos]
    by_cases hle : n ≤ values.length
    · rw [if_pos ⟨hpos, hle⟩]
      have hlt : n - 1 < values.length := by omega
      simp [List.getD, hlt]
    · rw [if_neg fun h => hle h.2]
      have hnone : values[n - 1]? = none := getElem?_eq_none (by omega)
      simp [List.getD, hnone, Value.text]
  · rw [if_neg fun h => hpos h.1, if_neg hpos]
    rfl

section Tail

variable {H : Host} {tail : Tail}

theorem Tail.ascii (h : tail.Delimited H) : ∀ c ∈ tail.text, c.toNat < 0x80 := by
  induction tail with
  | nil => exact fun c hc => by cases hc
  | cons part more ih =>
    obtain ⟨ds, seg⟩ := part
    obtain ⟨hds, hseg, -, -, hmore⟩ := h
    intro c hc
    simp only [Tail.text, cons_append, mem_cons, mem_append] at hc
    rcases hc with rfl | hc | hc | hc
    · decide
    · have hrange := toNat_of_isDigit (hds.isDigit c hc)
      omega
    · exact hseg.ascii c hc
    · exact ih hmore c hc

/-- What follows a placeholder is no digit. -/
theorem Tail.head_not_digit {more : Tail} (hseg : Segment H seg)
    (hopens : Opens seg ∨ seg = [] ∧ more = []) :
    ∀ b ∈ (asciiBytes seg ++ asciiBytes (Tail.text more)).head?, isAsciiDigit b = false := by
  rcases hopens with ⟨d, seg', rfl, hd⟩ | ⟨rfl, rfl⟩
  · rintro b hb
    cases hb
    rw [isAsciiDigit_ascii (hseg.ascii d mem_cons_self)]
    exact isDigit_of_isCloser (isCloser_of_isSeparator hd)
  · rintro b hb
    cases hb

theorem Tail.head_dollar (more : Tail) : ∀ b ∈ (asciiBytes (Tail.text more)).head?, b = 0x24 := by
  rcases more with - | ⟨⟨ds, seg⟩, more⟩
  · rintro b hb
    cases hb
  · rintro b hb
    exact (Option.some.inj hb).symm

/-- Substitution puts the values in place. -/
theorem substituteLoop_tail {checks : Bool}
    (h : tail.Delimited H) {fuel : Nat} (hfuel : (asciiBytes tail.text).length ≤ fuel) :
    substituteLoop checks (values.map Value.text) fuel (asciiBytes tail.text) =
      some (tail.fill values) := by
  induction tail generalizing fuel with
  | nil => exact substituteLoop_nil checks _
  | cons part more ih =>
    obtain ⟨ds, seg⟩ := part
    obtain ⟨hds, hseg, hopens, -, hmore⟩ := h
    have htext : asciiBytes (Tail.text ((ds, seg) :: more)) =
        0x24 :: (asciiBytes ds ++ (asciiBytes seg ++ asciiBytes (Tail.text more))) := by
      rw [Tail.text, cons_append, asciiBytes_cons, asciiBytes_append, asciiBytes_append]
      rfl
    rw [htext] at hfuel ⊢
    simp only [length_cons, length_append, length_asciiBytes] at hfuel
    obtain ⟨n, rfl⟩ : ∃ n, fuel = n + 1 := ⟨fuel - 1, by omega⟩
    rw [substituteLoop_placeholder checks _ hds (Tail.head_not_digit hseg hopens), text_valueAt]
    obtain ⟨fuel', hle, heq⟩ := substituteLoop_segment checks (values.map Value.text)
      hseg.ascii hseg.inert (Tail.head_dollar more) (show _ ≤ n by rw [length_asciiBytes]; omega)
    rw [heq, ih hmore hle]
    rfl

end Tail

/-! ## Tokens of the two texts -/

section

variable {H : Host} (hhost : AsciiHost H)

theorem nextToken_dollar {rest : List Char} : ∃ e, nextToken H '$' rest = .error e := by
  unfold nextToken
  exact ⟨_, rfl⟩

/-- Tokens are pieces. -/
theorem nextPiece_of_token {rest rest' : List Char} {tok : Option Token}
    (h : nextToken H c rest = .ok (tok, rest')) :
    nextPiece H c rest = .ok (tok.map .token, rest') := by
  have hc : c ≠ '$' := by
    rintro rfl
    obtain ⟨e, he⟩ := nextToken_dollar (H := H)
    cases he.symm.trans h
  rw [nextPiece, if_neg fun hp => hc hp.1, h]

include hhost

theorem nextPiece_append {rest rest' b : List Char} {p : Option Piece}
    (h : nextPiece H c rest = .ok (p, rest')) (hjoins : Joins (c :: rest) b) :
    nextPiece H c (rest ++ b) = .ok (p, rest' ++ b) ∧ rest' <:+ rest := by
  unfold nextPiece at h
  split at h
  · next hp =>
    obtain ⟨rfl, hdigit⟩ := hp
    obtain ⟨htake, hdrop⟩ := hjoins.span (fun _ => isDigit_of_isCloser) rfl
    cases h
    have hdigit' : ((rest ++ b).head?.map Char.isDigit).getD false = true := by
      cases rest with
      | nil => cases hdigit
      | cons d rest => exact hdigit
    rw [nextPiece, if_pos ⟨rfl, hdigit'⟩, htake, hdrop]
    exact ⟨rfl, dropWhile_suffix _⟩
  · split at h
    · next tok rest'' hnext =>
      cases h
      obtain ⟨happend, hsuffix⟩ := nextToken_append hhost hnext hjoins
      exact ⟨nextPiece_of_token happend, hsuffix⟩
    · cases h

theorem nextPiece_shrinks : Shrinks (nextPiece H) := fun h =>
  (nextPiece_append hhost h joins_nil).2

theorem pieces_append {a b : List Char} {pa pb : List Piece} (ha : Lexes (nextPiece H) a pa)
    (hb : Lexes (nextPiece H) b pb) (h : Joins a b) : Lexes (nextPiece H) (a ++ b) (pa ++ pb) :=
  ha.append (J := Joins) (nextPiece_shrinks hhost) Joins.suffix
    (fun hnext hj => (nextPiece_append hhost hnext hj).1) hb h

omit hhost in
theorem pieces_of_tokens {toks : List Token} (h : Lexed H cs toks) :
    Lexes (nextPiece H) cs (toks.map .token) := by
  induction h with
  | nil => exact .nil
  | step hnext _ ih =>
    rw [map_append, show ∀ t : Option Token, t.toList.map Piece.token = (t.map .token).toList from
      fun t => by cases t <;> rfl]
    exact .step (nextPiece_of_token hnext) ih

omit hhost in
theorem pieces_placeholder {ds : List Char} (hds : Digits ds) :
    Lexes (nextPiece H) ('$' :: ds) [.placeholder (number ds)] := by
  obtain ⟨d, ds', rfl⟩ := exists_cons_of_ne_nil hds.ne_nil
  have hnext : nextPiece H '$' (d :: ds') = .ok (some (.placeholder (number (d :: ds'))), []) := by
    rw [nextPiece, if_pos ⟨rfl, hds.isDigit d mem_cons_self⟩,
      takeWhile_eq_self_iff.mpr hds.isDigit, dropWhile_eq_nil_iff.mpr hds.isDigit]
  exact .step hnext .nil

/-- The word NULL. -/
theorem lexes_null : Lexed H "NULL".toList [.keyword "NULL"] := by
  have hident : ∀ c ∈ ['U', 'L', 'L'], isIdentChar H c = true := by
    intro c hc
    have hascii : c.toNat < 128 ∧ c.isAlphanum = true := by
      revert c
      decide
    rw [isIdentChar, hhost.alphanumeric c hascii.1, hascii.2]
    rfl
  have hword : wordToken H "NULL" = .keyword "NULL" := by
    unfold wordToken
    rw [hhost.uppercase "NULL" (by decide)]
    decide
  have hnext : nextToken H 'N' ['U', 'L', 'L'] = .ok (some (.keyword "NULL"), []) := by
    unfold nextToken
    rw [takeWhile_eq_self_iff.mpr hident, dropWhile_eq_nil_iff.mpr hident,
      show String.ofList ['N', 'U', 'L', 'L'] = "NULL" from rfl, hword]
    rfl
  exact .step hnext .nil

/-- The text of a value is one literal for it. -/
theorem lexes_value {v : Value} (h : ∀ s, v = some s → Neutral H s) :
    ∃ tok, Lexed H v.text.toList [tok] ∧ Denotes H tok v := by
  rcases v with - | s
  · exact ⟨_, lexes_null hhost, rfl⟩
  · obtain ⟨tok, htok, hdenotes⟩ := h s rfl
    obtain ⟨ts, hts, heq⟩ := (tokenize_eq_ok_iff hhost).mp htok
    obtain ⟨rfl, -⟩ := append_inj' (show [tok] ++ [Token.eof] = ts ++ [.eof] from heq) rfl
    exact ⟨tok, hts, hdenotes⟩

omit hhost in
/-- A placeholder is set apart from what follows, before and after substitution. -/
theorem joins_of_opens {seg : List Char} {more : Tail} {f : Tail → List Char} (hf : f [] = [])
    (h : Opens seg ∨ seg = [] ∧ more = []) {a : List Char} : Joins a (seg ++ f more) := by
  rcases h with ⟨d, seg', rfl, hd⟩ | ⟨rfl, rfl⟩
  · intro x y b' _ heq
    cases heq
    exact .inr hd
  · rw [hf]
    exact joins_nil

omit hhost in
theorem joins_of_closes {seg : List Char} {more : Tail} {f : Tail → List Char} (hf : f [] = [])
    (h : more = [] ∨ Closes seg) : Joins seg (f more) := by
  rcases h with rfl | h
  · rw [hf]
    exact joins_nil
  · exact fun x _ _ hx _ => .inl (h x hx)

omit hhost in
theorem fills_tokens {toks : List Token} :
    List.Forall₂ (Fills H values) (toks.map .token) toks := by
  rw [forall₂_map_left_iff, forall₂_same]
  exact fun _ _ => rfl

/-- The tokens of a text stand for some pieces. -/
def Filled (H : Host) (values : List Value) (ps : List Piece) (cs : List Char) : Prop :=
  ∃ toks, Lexed H cs toks ∧ List.Forall₂ (Fills H values) ps toks

/-- Where the head of a text stands for its pieces, the rest decides. -/
theorem filled_append {values : List Value} {pa pb : List Piece} {a b : List Char}
    {ta : List Token} (ha : Lexed H a ta) (hfills : List.Forall₂ (Fills H values) pa ta)
    (hjoins : Joins a b) : Filled H values (pa ++ pb) (a ++ b) ↔ Filled H values pb b := by
  constructor
  · rintro ⟨tab, htab, hab⟩
    obtain ⟨tb, htb⟩ := lexes_of_append hhost ha htab hjoins
    obtain rfl := htab.unique (lexes_append hhost ha htb hjoins)
    have hdrop := forall₂_drop pa.length hab
    rw [drop_left, hfills.length_eq, drop_left] at hdrop
    exact ⟨tb, htb, hdrop⟩
  · rintro ⟨tb, htb, hb⟩
    exact ⟨ta ++ tb, lexes_append hhost ha htb hjoins, rel_append hfills hb⟩

end

/-! ## The first token of a value -/

section

variable {H : Host} {rest rest' : List Char}

theorem of_ite {p q : Prop} [Decidable p] {α : Type} {x y z : α} (hpos : p → x = z → q)
    (hneg : ¬ p → y = z → q) (h : (if p then x else y) = z) : q := by
  split at h
  · next hp => exact hpos hp h
  · next hp => exact hneg hp h

/-- What a number starts with. -/
def StartsNumber (c : Char) (rest : List Char) : Prop :=
  c.isDigit = true ∨ c = '.' ∧ ∃ d ds, rest = d :: ds ∧ d.isDigit = true

/-- What a turn of the lexer may be: it skips white space, or it reads a string, a number or a token
that denotes no text. -/
theorem nextToken_cases {tok : Option Token} (h : nextToken H c rest = .ok (tok, rest')) :
    (tok = none ∧ (c = ' ' ∨ c = '\t' ∨ c = '\n' ∨ c = '\r')) ∨
    (∃ s, c = '\'' ∧ tok = some (.string s) ∧ readStringLiteral [] rest = .ok (s, rest')) ∨
    (∃ t, StartsNumber c rest ∧ tok = some t ∧ readNumber H (c :: rest) = .ok (t, rest')) ∨
    ∃ t, tok = some t ∧ ∀ s, ¬ Denotes H t (some s) := by
  have hother : ∀ {t r}, (∀ s, ¬ Denotes H t (some s)) →
      (.ok (some t, r) : Except String (Option Token × List Char)) = .ok (tok, rest') →
        ∃ t, tok = some t ∧ ∀ s, ¬ Denotes H t (some s) := by
    rintro t r ht ⟨⟩
    exact ⟨t, rfl, ht⟩
  revert h
  unfold nextToken
  refine of_ite (fun hblank h => .inl ⟨by cases h; rfl, hblank⟩) fun _ => ?_
  -- parentheses, separators and operators
  iterate 5 refine of_ite (fun _ h => .inr (.inr (.inr (hother (by simp [Denotes]) h)))) fun _ => ?_
  iterate 3
    refine of_ite (fun _ h => .inr (.inr (.inr ?_))) fun _ => ?_
    · split at h <;> first | exact hother (by simp [Denotes]) h | cases h
  refine of_ite (fun _ h => .inr (.inr (.inr (hother (by simp [Denotes]) h)))) fun _ => ?_
  refine of_ite (fun hquote h => .inr (.inl ?_)) fun _ => ?_
  · split at h
    · next s r hread =>
      cases h
      exact ⟨s, hquote, rfl, hread⟩
    · cases h
  refine of_ite (fun hdigit h => .inr (.inr (.inl ?_))) fun _ => ?_
  · split at h
    · next t r hread =>
      cases h
      exact ⟨t, .inl hdigit, rfl, hread⟩
    · cases h
  refine of_ite (fun hdot h => ?_) fun _ => ?_
  · cases rest with
    | nil => exact .inr (.inr (.inr (hother (by simp [Denotes]) h)))
    | cons d ds =>
      refine of_ite (fun hd h => .inr (.inr (.inl ?_)))
        (fun _ h => .inr (.inr (.inr (hother (by simp [Denotes]) h)))) h
      split at h
      · next t r hread =>
        cases h
        exact ⟨t, .inr ⟨hdot, d, ds, rfl, hd⟩, rfl, hread⟩
      · cases h
  refine of_ite (fun _ h => .inr (.inr (.inr ?_))) fun _ => of_ite
    (fun _ h => .inr (.inr (.inr ?_))) fun _ h => by cases h
  · split at h
    · exact hother (by simp [Denotes]) h
    · cases h
  · refine hother (fun s => ?_) h
    rw [wordToken]
    split <;> simp [Denotes]

theorem nextToken_of_readNumber {tok : Token} (hc : StartsNumber c rest)
    (h : readNumber H (c :: rest) = .ok (tok, rest')) :
    nextToken H c rest = .ok (some tok, rest') := by
  unfold nextToken
  rcases hc with hc | ⟨rfl, d, ds, rfl, hd⟩
  · have hne := ne_of_mem (' ' :: '\t' :: '\n' :: '\r' :: symbols) hc (by decide)
    simp only [symbols, forall_mem_cons] at hne
    simp [hne, hc, h]
  · simp [hd, h]

theorem isPrefix_readStringLiteral {acc cs : List Char} {s : String}
    (h : readStringLiteral acc cs = .ok (s, rest)) : acc <+: s.toList := by
  fun_induction readStringLiteral acc cs with
  | case1 => cases h
  | case2 acc cs ih => exact (prefix_append _ _).trans (ih h)
  | case3 acc cs hne =>
    cases h
    rw [String.toList_ofList]
  | case4 acc c cs hquote hne ih => exact (prefix_append _ _).trans (ih h)

section Quotes

variable {k : Nat} {cs : List Char} {s : String}
  (hs : s.toList = replicate (2 * k + 1) '\'' ++ cs)

include hs

theorem readStringLiteral_next {x : Char} {r : List Char} (hx : x ≠ '\'') :
    readStringLiteral (replicate k '\'') (x :: r) ≠ .ok (s, rest) := by
  intro hread
  rw [readStringLiteral_cons_of_ne hx] at hread
  obtain ⟨t, ht⟩ := isPrefix_readStringLiteral hread
  have hget := congrArg (·[k]?) (ht.trans hs)
  simp [getElem?_append, show k < 2 * k + 1 by omega] at hget
  exact hx hget

theorem readStringLiteral_last {r : List Char} (hr : ∀ y r', r = y :: r' → y ≠ '\'') :
    readStringLiteral (replicate k '\'') ('\'' :: r) ≠ .ok (s, rest) := by
  intro hread
  rw [readStringLiteral_end hr] at hread
  cases hread
  have hlength := congrArg length hs
  simp at hlength
  omega

/-- A string literal that starts in a value is not the value: all that is read of it are quotes, one
for two, and they run out before the separator. -/
theorem readStringLiteral_self {b : List Char} (hb : ∀ y b', b = y :: b' → y ≠ '\'') :
    readStringLiteral (replicate k '\'') (cs ++ b) ≠ .ok (s, rest) := by
  intro h
  induction cs using List.twoStepInduction generalizing k with
  | nil =>
    cases b with
    | nil => cases h
    | cons y b => exact readStringLiteral_next hs (hb y b rfl) h
  | singleton x =>
    by_cases hx : x = '\''
    · subst hx
      exact readStringLiteral_last hs hb h
    · exact readStringLiteral_next hs hx h
  | cons_cons x y cs ih _ =>
    by_cases hx : x = '\''
    · subst hx
      by_cases hy : y = '\''
      · subst hy
        rw [cons_append, cons_append, readStringLiteral, ← replicate_succ'] at h
        refine ih ?_ h
        rw [hs]
        simp [replicate_succ', Nat.mul_add]
      · refine readStringLiteral_last hs ?_ h
        rintro y' r' ⟨⟩
        exact hy
    · exact readStringLiteral_next hs hx h

end Quotes

theorem isDigit_of_parseI64 {s : String} {cs : List Char} {n : Int} (hs : s.toList = c :: cs)
    (hc : isNumChar c = true) (h : parseI64 s = some n) : ∀ d ∈ c :: cs, d.isDigit = true := by
  unfold parseI64 parseDigits at h
  have hne := ne_of_mem ['-', '+'] hc (by decide)
  grind

/-- **The first token of a value denotes it** only if the whole value is one token. -/
theorem neutral_of_denotes (hhost : AsciiHost H) (hfloat : FloatHost H) {s : String}
    {cs b : List Char} {toks : List Token} {tok : Token} (hs : s.toList = c :: cs)
    (hplain : ¬ (c = ' ' ∨ c = '\t' ∨ c = '\n' ∨ c = '\r'))
    (hb : ∀ y b', b = y :: b' → isSeparator y = true)
    (h : Lexed H (s.toList ++ b) (tok :: toks)) (hdenotes : Denotes H tok (some s)) :
    Neutral H s := by
  have hjoins : Joins (c :: cs) b := fun _ y b' _ heq => .inr (hb y b' heq)
  rw [hs, cons_append] at h
  generalize htoks : tok :: toks = all at h
  cases h with
  | step hnext hrest =>
    rcases nextToken_cases hnext with ⟨-, hblank⟩ | ⟨s', rfl, rfl, hread⟩ | ⟨t, hc, rfl, hread⟩ |
      ⟨t, rfl, hother⟩
    · exact absurd hblank hplain
    · obtain ⟨rfl, -⟩ := cons_eq_cons.mp htoks
      rcases hdenotes with heq | ⟨_, heq, -⟩ | ⟨_, heq, -⟩
      · cases heq
        refine absurd hread (readStringLiteral_self (k := 0) hs fun y b' hy => ?_)
        rintro rfl
        cases hb _ b' hy
      · cases heq
      · cases heq
    · obtain ⟨rfl, -⟩ := cons_eq_cons.mp htoks
      have hnum : isNumChar c = true := by
        rcases hc with hc | ⟨rfl, -⟩
        · rw [isNumChar, hc]
          rfl
        · rfl
      have hwhole : (readExponent ((c :: cs).dropWhile isNumChar)).2 = [] := by
        rcases hdenotes with rfl | ⟨n, -, hparse⟩ | ⟨bits, -, hparse⟩
        · unfold readNumber at hread
          grind
        · rw [dropWhile_eq_nil_iff.mpr fun d hd => ?_]
          · rfl
          · rw [isNumChar, isDigit_of_parseI64 hs hnum hparse d hd]
            rfl
        · rw [← hs]
          refine hfloat s bits hparse ?_
          rw [hs]
          rintro _ ⟨⟩
          exact hnum
      have hstart : StartsNumber c cs := by
        rcases hc with hc | ⟨hdot, d, ds, heq, hd⟩
        · exact .inl hc
        · cases cs with
          | nil =>
            rw [isDigit_of_isCloser (isCloser_of_isSeparator (hb d ds heq))] at hd
            cases hd
          | cons =>
            cases heq
            exact .inr ⟨hdot, _, _, rfl, hd⟩
      have hread' := readNumber_of_append hnum hread hjoins
      rw [hwhole] at hread'
      refine ⟨tok, (tokenize_eq_ok_iff hhost).mpr ⟨[tok], ?_, rfl⟩, hdenotes⟩
      rw [hs]
      exact .step (nextToken_of_readNumber hstart hread') .nil
    · obtain ⟨rfl, -⟩ := cons_eq_cons.mp htoks
      exact absurd hdenotes (hother s)

end

/-! ## Safe values -/

section

variable {H : Host} {values : List Value} {sql : String}

theorem substituteParams_delimited {checks : Bool} {first : List Char}
    {tail : Tail} (hsql : sql.toList = first ++ Tail.text tail) (hfirst : Segment H first)
    (htail : tail.Delimited H) : substituteParams checks sql (values.map Value.text) =
      some (String.ofList (first ++ Tail.fill values tail)) := by
  have hascii : ∀ c ∈ first ++ Tail.text tail, c.toNat < 0x80 := by
    intro c hc
    rcases mem_append.mp hc with hc | hc
    · exact hfirst.ascii c hc
    · exact Tail.ascii htail c hc
  have hbytes : bytesOf sql = asciiBytes first ++ asciiBytes (Tail.text tail) := by
    rw [bytesOf, hsql, Utf8.encode_ascii hascii]
    exact asciiBytes_append
  unfold substituteParams
  rw [hbytes, length_append, length_asciiBytes]
  obtain ⟨fuel, hle, heq⟩ := substituteLoop_segment checks (values.map Value.text) hfirst.ascii
    hfirst.inert (Tail.head_dollar tail) (Nat.le_refl _)
  rw [heq, substituteLoop_tail htail hle]
  rfl

theorem refersTo_cons {ps : List Piece} {toks : List Token} {n : Nat} {s : String} :
    RefersTo values ([.placeholder n] ++ (toks.map .token ++ ps)) s ↔
      valueAt values n = some s ∨ RefersTo values ps s := by
  simp [RefersTo, or_and_right, exists_or]

/-- Behind the first placeholder the tokens are compared from value to value. -/
theorem tail_filled (hhost : AsciiHost H) (hfloat : FloatHost H) (values : List Value) {tail : Tail}
    (h : tail.Delimited H) :
    ∃ ps, Lexes (nextPiece H) (Tail.text tail) ps ∧
      ((∀ s, RefersTo values ps s → StartsPlain s) →
        (Filled H values ps (Tail.fill values tail) ↔
          ∀ s, RefersTo values ps s → Neutral H s)) := by
  induction tail with
  | nil =>
    refine ⟨[], .nil, fun _ => iff_of_true ⟨[], .nil, .nil⟩ ?_⟩
    rintro s ⟨n, hn, -⟩
    cases hn
  | cons part more ih =>
    obtain ⟨ds, seg⟩ := part
    obtain ⟨hds, hseg, hopens, hcloses, hmore⟩ := h
    obtain ⟨ps, hps, hiff⟩ := ih hmore
    obtain ⟨segToks, hsegToks⟩ := hseg.lexes
    refine ⟨[.placeholder (number ds)] ++ (segToks.map .token ++ ps), ?_, fun hplain => ?_⟩
    · exact pieces_append hhost (pieces_placeholder hds)
        (pieces_append hhost (pieces_of_tokens hsegToks) hps (joins_of_closes rfl hcloses))
        (joins_of_opens rfl hopens)
    have hplain' := hiff fun s hs => hplain s (refersTo_cons.mpr (.inr hs))
    -- a neutral value is passed, and the segment behind it
    have hpass (hneutral : ∀ s, valueAt values (number ds) = some s → Neutral H s) :
        Filled H values ([.placeholder (number ds)] ++ (segToks.map .token ++ ps))
          (Tail.fill values ((ds, seg) :: more)) ↔ Filled H values ps (Tail.fill values more) := by
      obtain ⟨tok, htok, hdenotes⟩ := lexes_value hhost hneutral
      have hfills : List.Forall₂ (Fills H values) [.placeholder (number ds)] [tok] :=
        .cons hdenotes .nil
      exact (filled_append hhost htok hfills (joins_of_opens rfl hopens)).trans
        (filled_append hhost hsegToks fills_tokens (joins_of_closes rfl hcloses))
    constructor
    · intro hfilled
      have hfirst : ∀ s, valueAt values (number ds) = some s → Neutral H s := by
        intro s hs
        obtain ⟨c, cs, hcs, hblank⟩ := hplain s (refersTo_cons.mpr (.inl hs))
        obtain ⟨toks, htoks, - | ⟨hdenotes, -⟩⟩ := hfilled
        rw [Fills, hs] at hdenotes
        rw [Tail.fill, hs] at htoks
        refine neutral_of_denotes hhost hfloat hcs hblank (fun y b' heq => ?_) htoks hdenotes
        rcases hopens with ⟨d, seg', rfl, hd⟩ | ⟨rfl, rfl⟩
        · cases heq
          exact hd
        · cases heq
      intro s hs
      rcases refersTo_cons.mp hs with hs | hs
      · exact hfirst s hs
      · exact hplain'.mp ((hpass hfirst).mp hfilled) s hs
    · intro hneutral
      exact (hpass fun s hs => hneutral s (refersTo_cons.mpr (.inl hs))).mpr
        (hplain'.mpr fun s hs => hneutral s (refersTo_cons.mpr (.inr hs)))

/-- **Parameters are injection-free** in a delimited text exactly if each bound text that one of its
placeholders refers to is by itself a literal for its value. -/
theorem injectionFree_iff (hhost : AsciiHost H) (hfloat : FloatHost H) (checks : Bool)
    (hsql : Delimited H sql) {ps : List Piece} (hps : prepare H sql = .ok ps)
    (hplain : ∀ s, RefersTo values ps s → StartsPlain s) :
    InjectionFree H checks sql values ↔ ∀ s, RefersTo values ps s → Neutral H s := by
  obtain ⟨first, tail, hsql, hfirst, hcloses, htail⟩ := hsql
  obtain ⟨firstToks, hfirstToks⟩ := hfirst.lexes
  obtain ⟨tailPs, htailPs, hiff⟩ := tail_filled hhost hfloat values htail
  obtain ⟨ts, hts, rfl⟩ := (loop_eq_ok_iff (nextPiece_shrinks hhost)
    (Nat.le_of_eq String.length_toList)).mp hps
  have hpieces :=
    pieces_append hhost (pieces_of_tokens hfirstToks) htailPs (joins_of_closes rfl hcloses)
  rw [← hsql] at hpieces
  obtain rfl := hts.unique hpieces
  have hrefers : ∀ s, RefersTo values (firstToks.map .token ++ tailPs ++ [.token .eof]) s ↔
      RefersTo values tailPs s := by
    simp [RefersTo]
  have hfilled : InjectionFree H checks sql values ↔
      Filled H values (firstToks.map .token ++ tailPs) (first ++ Tail.fill values tail) := by
    constructor
    · intro h
      obtain ⟨out, toks, hout, htoks, hfills⟩ := h _ hps
      cases (substituteParams_delimited hsql hfirst htail).symm.trans hout
      obtain ⟨ts', hts', rfl⟩ := (tokenize_eq_ok_iff hhost).mp htoks
      rw [String.toList_ofList] at hts'
      have hlength : (firstToks.map Piece.token ++ tailPs).length = ts'.length := by
        have hall := hfills.length_eq
        simp only [length_append, length_singleton] at hall ⊢
        omega
      have htake := forall₂_take ts'.length hfills
      rw [← hlength, take_left, hlength, take_left] at htake
      exact ⟨ts', hts', htake⟩
    · rintro ⟨toks, htoks, hfills⟩ ps' hps'
      cases hps.symm.trans hps'
      have heof : List.Forall₂ (Fills H values) [.token .eof] [.eof] := .cons rfl .nil
      refine ⟨_, toks ++ [.eof], substituteParams_delimited hsql hfirst htail,
        (tokenize_eq_ok_iff hhost).mpr ⟨toks, ?_, rfl⟩, rel_append hfills heof⟩
      rwa [String.toList_ofList]
  simp only [hrefers] at hplain ⊢
  rw [hfilled, filled_append hhost hfirstToks fills_tokens (joins_of_closes rfl hcloses),
    hiff hplain]

theorem segment_nil : Segment H [] where
  ascii := fun _ hc => by cases hc
  inert := rfl
  lexes := ⟨[], .nil⟩

end

/-! ## Two bound values -/

theorem Segment.of_tokenize {H : Host} (hhost : AsciiHost H) (toks : List Token)
    (hascii : ∀ c ∈ s.toList, c.toNat < 0x80) (hinert : Server.inert s.toList = true)
    (h : tokenize H s = .ok toks) : Segment H s.toList :=
  ⟨hascii, hinert, (tokenize_eq_ok_iff hhost).mp h |>.imp fun _ h => h.1⟩

theorem neutral_number : Neutral .ascii "42" :=
  ⟨.int 42, by decide +kernel, .inr (.inl ⟨42, rfl, by decide +kernel⟩)⟩

theorem delimited_select : Delimited .ascii "SELECT a FROM t WHERE b = $1 AND c = $2" := by
  have hfirst : Segment .ascii "SELECT a FROM t WHERE b = ".toList :=
    .of_tokenize asciiHost_ascii [.keyword "SELECT", .ident "a", .keyword "FROM", .ident "t",
      .keyword "WHERE", .ident "b", .op "=", .eof] (by decide) (by decide) (by decide +kernel)
  have hsecond : Segment .ascii " AND c = ".toList :=
    .of_tokenize asciiHost_ascii [.keyword "AND", .ident "c", .op "=", .eof] (by decide) (by decide)
      (by decide +kernel)
  refine ⟨_, [(['1'], " AND c = ".toList), (['2'], [])], rfl, hfirst, .inr ?_, ⟨?_, hsecond,
    .inl ⟨' ', _, rfl, rfl⟩, .inr ?_, ?_, segment_nil, .inr ⟨rfl, rfl⟩, .inl rfl, trivial⟩⟩
  · rintro x ⟨⟩
    rfl
  · exact ⟨by simp, by decide, by decide⟩
  · rintro x ⟨⟩
    rfl
  · exact ⟨by simp, by decide, by decide⟩

def selectPieces : List Piece :=
  [.token (.keyword "SELECT"), .token (.ident "a"), .token (.keyword "FROM"), .token (.ident "t"),
    .token (.keyword "WHERE"), .token (.ident "b"), .token (.op "="), .placeholder 1,
    .token (.keyword "AND"), .token (.ident "c"), .token (.op "="), .placeholder 2, .token .eof]

/-- The third value has operators, but no placeholder refers to it. -/
theorem number_injectionFree :
    InjectionFree .ascii true "SELECT a FROM t WHERE b = $1 AND c = $2"
      [some "42", none, some "0 OR 1 = 1"] := by
  have hprepare : prepare .ascii "SELECT a FROM t WHERE b = $1 AND c = $2" = .ok selectPieces := by
    decide +kernel
  have hrefers : ∀ s, RefersTo [some "42", none, some "0 OR 1 = 1"] selectPieces s → s = "42" := by
    rintro s ⟨n, hn, hs⟩
    obtain rfl | rfl : n = 1 ∨ n = 2 := by simpa [selectPieces] using hn
    · exact (Option.some.inj hs).symm
    · cases hs
  refine (injectionFree_iff asciiHost_ascii (fun _ _ h => by cases h) true delimited_select hprepare
    fun s hs => ?_).mpr fun s hs => ?_
  · rw [hrefers s hs]
    exact ⟨'4', ['2'], by decide, by decide⟩
  · rw [hrefers s hs]
    exact neutral_number

/-- A text with operators becomes part of the condition. -/
theorem condition_injected :
    ¬ InjectionFree .ascii true "SELECT a FROM t WHERE b = $1" [some "0 OR 1 = 1"] := by
  intro h
  have hprepare : prepare .ascii "SELECT a FROM t WHERE b = $1" =
      .ok [.token (.keyword "SELECT"), .token (.ident "a"), .token (.keyword "FROM"),
        .token (.ident "t"), .token (.keyword "WHERE"), .token (.ident "b"), .token (.op "="),
        .placeholder 1, .token .eof] := by
    decide +kernel
  have hout : substituteParams true "SELECT a FROM t WHERE b = $1" ["0 OR 1 = 1"] =
      some "SELECT a FROM t WHERE b = 0 OR 1 = 1" := by
    decide +kernel
  have htoks : tokenize .ascii "SELECT a FROM t WHERE b = 0 OR 1 = 1" =
      .ok [.keyword "SELECT", .ident "a", .keyword "FROM", .ident "t", .keyword "WHERE", .ident "b",
        .op "=", .int 0, .keyword "OR", .int 1, .op "=", .int 1, .eof] := by
    decide +kernel
  obtain ⟨out, toks, hout', htoks', hfills⟩ := h _ hprepare
  cases hout.symm.trans hout'
  obtain rfl := Except.ok.inj (htoks.symm.trans htoks')
  cases hfills.length_eq

end TensorVault.Server
