import Mathlib.Algebra.Group.Int.Defs
import Mathlib.Algebra.GroupWithZero.Nat
import Mathlib.Data.List.DropRight
import Mathlib.Data.List.Infix

/-!
# Text helpers of the Rust standard library

The engine keeps values, names and whole statements as text, and decides everything from
trimmed, case-folded or numerically parsed pieces of it. This file models the `str` functions
it calls: `trim`, `eq_ignore_ascii_case`, `starts_with`, `replace` and the integer parsers.

Strings are read as lists of characters. Byte lengths only matter where the source slices by
byte offset, and there the width of a character is `utf8Width`.
-/

namespace TensorVault.Text

open List

variable {cs pat : List Char} {c sep : Char} {parts : List (List Char)} {s : String}
  {rest : List Char} {a b : Char} {p as bs : List Char}

/-- Whether the elements of a list have a property is found by going through it. -/
instance (priority := high) decidableForallMem {α : Type} (p : α → Prop) [DecidablePred p]
    (l : List α) : Decidable (∀ x, x ∈ l → p x) :=
  List.decidableBAll p l

instance (priority := high) decidableExistsMem {α : Type} (p : α → Prop) [DecidablePred p]
    (l : List α) : Decidable (∃ x, x ∈ l ∧ p x) :=
  List.decidableBEx p l

/-! ## White space -/

/-- The Unicode `White_Space` set, which `str::trim` strips. -/
def isWhitespace (c : Char) : Bool :=
  let n := c.toNat
  (0x09 ≤ n && n ≤ 0x0D) || n == 0x20 || n == 0x85 || n == 0xA0 || n == 0x1680 ||
    (0x2000 ≤ n && n ≤ 0x200A) || n == 0x2028 || n == 0x2029 || n == 0x202F || n == 0x205F ||
    n == 0x3000

def trimChars (cs : List Char) : List Char :=
  (cs.dropWhile isWhitespace).rdropWhile isWhitespace

/-- `str::trim`. -/
def trim (s : String) : String := String.ofList (trimChars s.toList)

theorem isWhitespace_of_trim_eq_empty (h : trim s = "") :
    ∀ c ∈ s.toList, isWhitespace c = true := by
  have hchars : trimChars s.toList = [] := by
    have hlist := congrArg String.toList h
    rwa [trim, String.toList_ofList] at hlist
  have hdrop : s.toList.dropWhile isWhitespace = [] := by
    by_contra hne
    have hhead := dropWhile_get_zero_not isWhitespace s.toList
      (length_pos_of_ne_nil hne)
    rw [trimChars, rdropWhile_eq_nil_iff] at hchars
    exact hhead (hchars _ (get_mem _ _))
  exact dropWhile_eq_nil_iff.mp hdrop

/-- A text that neither starts nor ends with white space is its own trim. -/
theorem trimChars_eq_self {d : Char} (hc : isWhitespace c = false)
    (hd : isWhitespace d = false) : trimChars (c :: (cs ++ [d])) = c :: (cs ++ [d]) := by
  unfold trimChars
  rw [dropWhile_cons_of_neg (by simp [hc]), ← cons_append,
    rdropWhile_concat_neg _ _ _ (by simp [hd])]

/-- A text without white space is its own trim. -/
theorem trimChars_of_forall (h : ∀ c ∈ cs, isWhitespace c = false) : trimChars cs = cs := by
  have hdrop : cs.dropWhile isWhitespace = cs := by
    cases cs with
    | nil => rfl
    | cons c cs => rw [dropWhile_cons_of_neg (by simp [h c mem_cons_self])]
  unfold trimChars
  rw [hdrop, rdropWhile_eq_self_iff]
  intro hne
  simp [h _ (getLast_mem hne)]

theorem prefix_rdropWhile {p : Char → Bool} {init : List Char} {d : Char} (hd : p d = false) :
    init ++ [d] <+: (init ++ [d] ++ rest).rdropWhile p := by
  induction rest using List.reverseRecOn with
  | nil => rw [append_nil, rdropWhile_concat_neg _ _ _ (by simp [hd])]
  | append_singleton rest x ih =>
    rw [← append_assoc]
    by_cases hx : p x = true
    · rw [rdropWhile_concat_pos _ _ _ hx]
      exact ih
    · rw [rdropWhile_concat_neg _ _ _ hx, append_assoc (init ++ [d])]
      exact prefix_append _ _

/-- What a text starts with stays there if it neither starts nor ends with white space. -/
theorem prefix_trimChars {pre : List Char} (hhead : pre.head?.all (!isWhitespace ·) = true)
    (hlast : pre.getLast?.all (!isWhitespace ·) = true) : pre <+: trimChars (pre ++ rest) := by
  have hdrop : pre = [] ∨ (pre ++ rest).dropWhile isWhitespace = pre ++ rest := by
    cases pre with
    | nil => exact .inl rfl
    | cons c pre =>
      have hc : isWhitespace c = false := by simpa using hhead
      right
      rw [cons_append, dropWhile_cons_of_neg (by simp [hc])]
  rcases hdrop with rfl | hdrop
  · exact nil_prefix
  · unfold trimChars
    rw [hdrop]
    rcases eq_nil_or_concat' pre with rfl | ⟨init, d, rfl⟩
    · exact nil_prefix
    · exact prefix_rdropWhile (by simpa using hlast)

/-! ## ASCII case -/

/-- `str::eq_ignore_ascii_case`: only `A`-`Z` are folded. -/
def eqIgnoreAsciiCase (a b : String) : Bool :=
  a.toList.map Char.toLower == b.toList.map Char.toLower

/-- The number of bytes of a character in UTF-8. -/
def utf8Width (c : Char) : Nat := c.utf8Size

/-! ## Searching and replacing -/

/-- `str::starts_with`. -/
def startsWith (s pre : String) : Bool := pre.toList.isPrefixOf s.toList

/-- `str::replace` of a two-character pattern, left to right and without overlap. -/
def replacePair (a b : Char) (new : List Char) : List Char → List Char
  | x :: y :: rest =>
    if x = a ∧ y = b then new ++ replacePair a b new rest
    else x :: replacePair a b new (y :: rest)
  | cs => cs

/-- Two characters next to each other somewhere in the text. -/
def hasPair (a b : Char) : List Char → Bool
  | x :: y :: rest => (x == a && y == b) || hasPair a b (y :: rest)
  | _ => false

theorem replacePair_of_not_hasPair {new : List Char} :
    ∀ {cs : List Char}, hasPair a b cs = false → replacePair a b new cs = cs
  | [], _ => by simp [replacePair]
  | [_], _ => by simp [replacePair]
  | x :: y :: rest, h => by
    simp only [hasPair, Bool.or_eq_false_iff, Bool.and_eq_false_iff, beq_eq_false_iff_ne] at h
    have hne : ¬ (x = a ∧ y = b) := by
      rintro ⟨hx, hy⟩
      rcases h.1 with h1 | h1
      · exact h1 hx
      · exact h1 hy
    rw [replacePair, if_neg hne, replacePair_of_not_hasPair h.2]

/-- A replacement by a single character shortens the text as soon as it happens once. -/
theorem length_replacePair_le (a b c : Char) :
    ∀ cs : List Char, (replacePair a b [c] cs).length ≤ cs.length
  | [] => by simp [replacePair]
  | [_] => by simp [replacePair]
  | x :: y :: rest => by
    rw [replacePair]
    split
    · have ih := length_replacePair_le a b c rest
      simp only [length_append, length_cons, length_nil]
      omega
    · have ih := length_replacePair_le a b c (y :: rest)
      simp only [length_cons] at ih ⊢
      omega

theorem replacePair_eq_self_iff :
    ∀ {cs : List Char}, replacePair a b [c] cs = cs ↔ hasPair a b cs = false
  | [] => by simp [replacePair, hasPair]
  | [_] => by simp [replacePair, hasPair]
  | x :: y :: rest => by
    constructor
    · intro h
      rw [replacePair] at h
      split at h
      · have hlen := congrArg List.length h
        have hle := length_replacePair_le a b c rest
        simp only [length_append, length_cons, length_nil] at hlen
        omega
      · next hne =>
        have hrest : replacePair a b [c] (y :: rest) = y :: rest := by simpa using h
        have ih := replacePair_eq_self_iff.mp hrest
        simp only [hasPair, ih, Bool.or_false, Bool.and_eq_false_iff, beq_eq_false_iff_ne]
        by_cases hx : x = a
        · exact .inr fun hy => hne ⟨hx, hy⟩
        · exact .inl hx
    · exact replacePair_of_not_hasPair

/-- `str::contains`. -/
def contains (s pat : String) : Bool := s.toList.tails.any (pat.toList.isPrefixOf ·)

theorem contains_iff {pat : String} : contains s pat = true ↔ pat.toList <:+: s.toList := by
  unfold contains
  rw [any_eq_true, infix_iff_prefix_suffix]
  simp only [mem_tails, isPrefixOf_iff_prefix, and_comm]

/-- An end without a separator lies behind the separator. -/
theorem suffix_of_not_mem (hp : sep ∉ p) (h : p <:+ as ++ sep :: bs) : p <:+ bs := by
  have hsep : sep :: bs <:+ as ++ sep :: bs := suffix_append _ _
  rcases suffix_or_suffix_of_suffix h hsep with h | h
  · rcases suffix_cons_iff.mp h with rfl | h
    · exact absurd mem_cons_self hp
    · exact h
  · exact absurd (h.subset mem_cons_self) hp

/-- A phrase that is found behind a word begins in the word or behind it. -/
theorem split_words {s q t word : List Char} (hp : sep ∉ p) (hword : sep ∉ word)
    (h : s ++ (p ++ sep :: q) ++ t = word ++ sep :: rest) :
    p <:+ word ∧ q ++ t = rest ∨ ∃ s', s' ++ (p ++ sep :: q) ++ t = rest := by
  have heq : (s ++ p) ++ sep :: (q ++ t) = word ++ sep :: rest := by
    rw [← h]
    simp
  rcases append_eq_append_iff.mp heq with ⟨a, ha, hrest⟩ | ⟨a, ha, hrest⟩
  · cases a with
    | nil =>
      rw [append_nil] at ha
      exact .inl ⟨⟨s, ha.symm⟩, (List.cons.inj hrest).2⟩
    | cons x a =>
      obtain ⟨rfl, -⟩ := List.cons.inj hrest
      exact absurd (ha ▸ mem_append_right _ mem_cons_self) hword
  · cases a with
    | nil =>
      rw [append_nil] at ha
      exact .inl ⟨⟨s, ha⟩, (List.cons.inj hrest).2.symm⟩
    | cons x a =>
      cases hrest
      -- the phrase has no separator in front of `q`, so it begins behind the word
      obtain ⟨a', rfl⟩ := suffix_of_not_mem hp ⟨s, ha⟩
      exact .inr ⟨a', by simp⟩

/-- A word that is found lies on one side of a separator. -/
theorem infix_word (hp : sep ∉ p) (h : p <:+: as ++ sep :: bs) : p <:+: as ∨ p <:+: bs := by
  obtain ⟨s, t, hst⟩ := h
  rcases append_eq_append_iff.mp hst with ⟨a, ha, hrest⟩ | ⟨a, ha, hrest⟩
  · exact .inl ⟨s, a, ha.symm⟩
  · cases a with
    | nil =>
      rw [append_nil] at ha
      exact .inl ⟨s, [], by rw [ha, append_nil]⟩
    | cons x a =>
      cases hrest
      exact .inr ((suffix_of_not_mem hp ⟨s, ha⟩).isInfix.trans ⟨[], t, rfl⟩)

/-- `str::replace` of a non-empty pattern; the fuel is the length of the text. -/
def replaceLoop (pat new : List Char) : Nat → List Char → List Char
  | 0, cs => cs
  | _ + 1, [] => []
  | fuel + 1, c :: cs =>
    if pat.isPrefixOf (c :: cs) then new ++ replaceLoop pat new fuel ((c :: cs).drop pat.length)
    else c :: replaceLoop pat new fuel cs

def replace (s pat new : String) : String :=
  String.ofList (replaceLoop pat.toList new.toList s.toList.length s.toList)

/-! ## Slicing and splitting -/

/-- `&s[n..]`: a slice panics inside a character and past the end. -/
def dropBytes : Nat → List Char → Option (List Char)
  | 0, cs => some cs
  | _ + 1, [] => none
  | n + 1, c :: cs => if utf8Width c ≤ n + 1 then dropBytes (n + 1 - utf8Width c) cs else none

/-- `&s[..n]`. -/
def takeBytes : Nat → List Char → Option (List Char)
  | 0, _ => some []
  | _ + 1, [] => none
  | n + 1, c :: cs =>
    if utf8Width c ≤ n + 1 then (takeBytes (n + 1 - utf8Width c) cs).map (c :: ·) else none

/-- `&s[a..b]`, which also panics if `b` lies before `a`. -/
def sliceBytes (a b : Nat) (cs : List Char) : Option (List Char) :=
  if a ≤ b then (dropBytes a cs).bind (takeBytes (b - a)) else none

/-- `str::len`. -/
def byteLength (cs : List Char) : Nat := (cs.map utf8Width).sum

/-- `str::find`, as the byte offset. -/
def findBytes (pat : List Char) : List Char → Option Nat
  | [] => if pat = [] then some 0 else none
  | c :: cs =>
    if pat.isPrefixOf (c :: cs) then some 0
    else (findBytes pat cs).map (· + utf8Width c)

/-- `str::rfind`, as the byte offset. -/
def rfindBytes (pat : List Char) : List Char → Option Nat
  | [] => if pat = [] then some 0 else none
  | c :: cs =>
    match rfindBytes pat cs with
    | some n => some (n + utf8Width c)
    | none => if pat.isPrefixOf (c :: cs) then some 0 else none

/-- `str::trim_start`. -/
def trimStart (cs : List Char) : List Char := cs.dropWhile isWhitespace

/-! ### Slices of ASCII texts -/

def Ascii (cs : List Char) : Prop := ∀ c ∈ cs, c.toNat < 128

instance (cs : List Char) : Decidable (Ascii cs) := inferInstanceAs (Decidable (∀ c ∈ cs, _))

theorem Ascii.of_sublist {ds : List Char} (h : Ascii ds) (hsub : cs.Sublist ds) : Ascii cs :=
  fun c hc => h c (hsub.subset hc)

theorem trimStart_suffix (cs : List Char) : trimStart cs <:+ cs := dropWhile_suffix _

theorem infix_trimChars : trimChars cs <:+: cs :=
  (List.rdropWhile_prefix _ _).isInfix.trans (dropWhile_suffix _).isInfix

theorem Ascii.trimStart (h : Ascii cs) : Ascii (trimStart cs) :=
  h.of_sublist (trimStart_suffix cs).sublist

theorem Ascii.trimChars (h : Ascii cs) : Ascii (trimChars cs) :=
  h.of_sublist infix_trimChars.sublist

theorem Ascii.drop (h : Ascii cs) (n : Nat) : Ascii (cs.drop n) :=
  h.of_sublist (drop_sublist n cs)

theorem Ascii.take (h : Ascii cs) {n : Nat} : Ascii (cs.take n) :=
  h.of_sublist (take_sublist n cs)

theorem Ascii.tail (h : Ascii (c :: cs)) : Ascii cs :=
  h.of_sublist (sublist_cons_self c cs)

/-- A property of ASCII characters can be checked on all of them. -/
theorem forall_ascii {P : Char → Prop} (h : ∀ n < 128, P (Char.ofNat n))
    (hc : c.toNat < 128) : P c := by
  have hn := h c.toNat hc
  rwa [Char.ofNat_toNat] at hn

theorem Ascii.map_toUpper (h : Ascii cs) : Ascii (cs.map Char.toUpper) := by
  intro d hd
  obtain ⟨c, hc, rfl⟩ := mem_map.mp hd
  exact forall_ascii (P := fun c => c.toUpper.toNat < 128) (by decide) (h c hc)

theorem Ascii.map_toLower (h : Ascii cs) : Ascii (cs.map Char.toLower) := by
  intro d hd
  obtain ⟨c, hc, rfl⟩ := mem_map.mp hd
  exact forall_ascii (P := fun c => c.toLower.toNat < 128) (by decide) (h c hc)

theorem utf8Width_of_ascii (h : c.toNat < 128) : utf8Width c = 1 := by
  have hval : c.val ≤ 0x7f := by
    exact Nat.le_of_lt_succ h
  exact Char.utf8Size_eq_one_iff.mpr hval

theorem byteLength_cons : byteLength (c :: cs) = utf8Width c + byteLength cs := by
  simp [byteLength]

theorem byteLength_append {ds : List Char} :
    byteLength (cs ++ ds) = byteLength cs + byteLength ds := by
  simp [byteLength]

theorem length_le_byteLength (cs : List Char) : cs.length ≤ byteLength cs := by
  induction cs with
  | nil => exact Nat.le_refl 0
  | cons c cs ih =>
    have hc : 0 < utf8Width c := c.utf8Size_pos
    rw [byteLength_cons, length_cons]
    omega

theorem byteLength_of_ascii (h : Ascii cs) : byteLength cs = cs.length := by
  induction cs with
  | nil => rfl
  | cons c cs ih =>
    rw [byteLength_cons, utf8Width_of_ascii (h c mem_cons_self), ih h.tail,
      length_cons, Nat.add_comm]

variable {n i : Nat}

theorem exists_utf8Width_eq (c : Char) : ∃ w, utf8Width c = w + 1 :=
  ⟨_, (Nat.succ_pred_eq_of_pos c.utf8Size_pos).symm⟩

/-- A slice at the end of a stretch of whole characters. -/
theorem dropBytes_append (pre rest : List Char) :
    dropBytes (byteLength pre) (pre ++ rest) = some rest := by
  induction pre with
  | nil => simp [byteLength, dropBytes]
  | cons c pre ih =>
    obtain ⟨w, hw⟩ := exists_utf8Width_eq c
    rw [byteLength_cons, hw, Nat.add_right_comm, cons_append, dropBytes, if_pos (by omega), hw,
      Nat.add_right_comm, Nat.add_sub_cancel_left, ih]

theorem takeBytes_append (pre rest : List Char) :
    takeBytes (byteLength pre) (pre ++ rest) = some pre := by
  induction pre with
  | nil => simp [byteLength, takeBytes]
  | cons c pre ih =>
    obtain ⟨w, hw⟩ := exists_utf8Width_eq c
    rw [byteLength_cons, hw, Nat.add_right_comm, cons_append, takeBytes, if_pos (by omega), hw,
      Nat.add_right_comm, Nat.add_sub_cancel_left, ih, Option.map_some]

theorem byteLength_take_of_ascii (h : Ascii cs) (hn : n ≤ cs.length) :
    byteLength (cs.take n) = n := by
  rw [byteLength_of_ascii h.take, length_take, Nat.min_eq_left hn]

theorem dropBytes_of_ascii (h : Ascii cs) (hn : n ≤ cs.length) :
    dropBytes n cs = some (cs.drop n) := by
  have hdrop := dropBytes_append (cs.take n) (cs.drop n)
  rwa [take_append_drop, byteLength_take_of_ascii h hn] at hdrop

theorem takeBytes_of_ascii (h : Ascii cs) (hn : n ≤ cs.length) :
    takeBytes n cs = some (cs.take n) := by
  have htake := takeBytes_append (cs.take n) (cs.drop n)
  rwa [take_append_drop, byteLength_take_of_ascii h hn] at htake

theorem sliceBytes_of_ascii (h : Ascii cs) {a b : Nat} (hab : a ≤ b) (hb : b ≤ cs.length) :
    sliceBytes a b cs = some ((cs.drop a).take (b - a)) := by
  rw [sliceBytes, if_pos hab, dropBytes_of_ascii h (hab.trans hb), Option.bind_some,
    takeBytes_of_ascii (h.drop a) (by rw [length_drop]; omega)]

/-- A pattern stands where it is found, behind whole characters, and nowhere before. -/
theorem findBytes_eq_some (hfind : findBytes pat cs = some i) :
    ∃ k ≤ cs.length, i = byteLength (cs.take k) ∧ pat <+: cs.drop k ∧
      ∀ j < k, ¬ pat <+: cs.drop j := by
  induction cs generalizing i with
  | nil =>
    rw [findBytes] at hfind
    split at hfind
    · next hpat =>
      cases hfind
      exact ⟨0, Nat.le_refl _, rfl, by simp [hpat], fun j hj => absurd hj (Nat.not_lt_zero j)⟩
    · cases hfind
  | cons c cs ih =>
    rw [findBytes] at hfind
    split at hfind
    · next hpre =>
      cases hfind
      exact ⟨0, Nat.zero_le _, rfl, isPrefixOf_iff_prefix.mp hpre,
        fun j hj => absurd hj (Nat.not_lt_zero j)⟩
    · next hpre =>
      obtain ⟨i, hi, rfl⟩ := Option.map_eq_some_iff.mp hfind
      obtain ⟨k, hk, rfl, hat, hbefore⟩ := ih hi
      refine ⟨k + 1, Nat.succ_le_succ hk, ?_, hat, fun j hj => ?_⟩
      · rw [take_succ_cons, byteLength_cons, Nat.add_comm]
      · cases j with
        | zero => exact fun hp => hpre (List.isPrefixOf_iff_prefix.mpr hp)
        | succ j => exact hbefore j (Nat.lt_of_succ_lt_succ hj)

theorem findBytes_of_ascii (h : Ascii cs) (hfind : findBytes pat cs = some i) :
    pat <+: cs.drop i ∧ ∀ j < i, ¬ pat <+: cs.drop j := by
  obtain ⟨k, hk, rfl, hat⟩ := findBytes_eq_some hfind
  rwa [byteLength_take_of_ascii h hk]

theorem findBytes_ne_none {j : Nat} (hat : pat <+: cs.drop j) (hj : j ≤ cs.length) :
    findBytes pat cs ≠ none := by
  induction cs generalizing j with
  | nil =>
    have hpat : pat = [] := prefix_nil.mp (by simpa using hat)
    simp [findBytes, hpat]
  | cons c cs ih =>
    rw [findBytes]
    split
    · simp
    · next hpre =>
      cases j with
      | zero => exact absurd (List.isPrefixOf_iff_prefix.mpr hat) hpre
      | succ j => simpa using ih hat (Nat.le_of_succ_le_succ hj)

theorem rfindBytes_of_ascii (h : Ascii cs) (hfind : rfindBytes pat cs = some i) :
    pat <+: cs.drop i := by
  induction cs generalizing i with
  | nil =>
    rw [rfindBytes] at hfind
    split at hfind
    · next hpat =>
      cases hfind
      simp [hpat]
    · cases hfind
  | cons c cs ih =>
    rw [rfindBytes] at hfind
    split at hfind
    · next n hn =>
      cases hfind
      rw [utf8Width_of_ascii (h c mem_cons_self)]
      exact ih h.tail hn
    · split at hfind
      · next hpre =>
        cases hfind
        exact isPrefixOf_iff_prefix.mp hpre
      · cases hfind

/-- What stands behind a found pattern is in range. -/
theorem add_length_le_of_prefix_drop (hne : pat ≠ []) (hpre : pat <+: cs.drop i) :
    i + pat.length ≤ cs.length := by
  have hlen := hpre.length_le
  have hpos := length_pos_iff.mpr hne
  rw [length_drop] at hlen
  omega

/-! ### Parts -/

/-- `str::split` at a character: all parts, empty ones included. -/
def splitOn (sep : Char) : List Char → List (List Char)
  | [] => [[]]
  | c :: cs =>
    if c = sep then [] :: splitOn sep cs
    else
      match splitOn sep cs with
      | part :: parts => (c :: part) :: parts
      | [] => [[c]]

theorem splitOn_ne_nil (sep : Char) (cs : List Char) : splitOn sep cs ≠ [] := by
  cases cs with
  | nil => simp [splitOn]
  | cons c cs =>
    rw [splitOn]
    split
    · simp
    · split <;> simp

variable {part : List Char}

theorem splitOn_cons_of_ne (h : c ≠ sep) (hcs : splitOn sep cs = part :: parts) :
    splitOn sep (c :: cs) = (c :: part) :: parts := by
  rw [splitOn, if_neg h, hcs]

/-- A separator ends a part. -/
theorem splitOn_append : splitOn sep (as ++ sep :: bs) = splitOn sep as ++ splitOn sep bs := by
  induction as with
  | nil => simp [splitOn]
  | cons a as ih =>
    by_cases ha : a = sep
    · rw [cons_append, splitOn, splitOn, if_pos ha, if_pos ha, ih, cons_append]
    · obtain ⟨part, parts, hparts⟩ := exists_cons_of_ne_nil (splitOn_ne_nil sep as)
      rw [hparts, cons_append] at ih
      rw [cons_append, splitOn_cons_of_ne ha ih, splitOn_cons_of_ne ha hparts, cons_append]

theorem splitOn_of_not_mem (h : sep ∉ cs) : splitOn sep cs = [cs] := by
  induction cs with
  | nil => rfl
  | cons c cs ih =>
    rw [mem_cons, not_or] at h
    exact splitOn_cons_of_ne (Ne.symm h.1) (ih h.2)

theorem not_mem_of_mem_splitOn (h : part ∈ splitOn sep cs) : sep ∉ part := by
  induction cs generalizing part with
  | nil =>
    rw [splitOn, mem_singleton] at h
    simp [h]
  | cons c cs ih =>
    by_cases hc : c = sep
    · rw [splitOn, if_pos hc] at h
      rcases mem_cons.mp h with rfl | h
      · simp
      · exact ih h
    · obtain ⟨first, parts, hparts⟩ := exists_cons_of_ne_nil (splitOn_ne_nil sep cs)
      rw [splitOn_cons_of_ne hc hparts] at h
      rcases mem_cons.mp h with rfl | h
      · rw [mem_cons, not_or]
        exact ⟨Ne.symm hc, ih (hparts ▸ mem_cons_self)⟩
      · exact ih (hparts ▸ mem_cons_of_mem _ h)

/-- Parts that are put together with the separator are taken apart again. -/
theorem splitOn_intercalate (hne : parts ≠ []) (h : ∀ part ∈ parts, sep ∉ part) :
    splitOn sep ([sep].intercalate parts) = parts := by
  induction parts with
  | nil => exact absurd rfl hne
  | cons part parts ih =>
    have hpart := splitOn_of_not_mem (h part mem_cons_self)
    cases parts with
    | nil => simpa [List.intercalate] using hpart
    | cons part' parts =>
      rw [intercalate_cons_cons, append_assoc, singleton_append, splitOn_append, hpart,
        ih (by simp) (forall_mem_cons.mp h).2]
      rfl

theorem mem_intercalate {sep : List Char} (h : c ∈ sep.intercalate parts) :
    c ∈ sep ∨ ∃ part ∈ parts, c ∈ part := by
  induction parts with
  | nil => simp [List.intercalate] at h
  | cons part parts ih =>
    cases parts with
    | nil => exact .inr ⟨part, mem_cons_self, by simpa [List.intercalate] using h⟩
    | cons part' parts =>
      rw [intercalate_cons_cons, mem_append, mem_append] at h
      rcases h with (h | h) | h
      · exact .inr ⟨part, mem_cons_self, h⟩
      · exact .inl h
      · rcases ih h with h | ⟨p, hp, h⟩
        · exact .inl h
        · exact .inr ⟨p, mem_cons_of_mem _ hp, h⟩

/-- `str::split_whitespace`. -/
def splitWhitespace (cs : List Char) : List (List Char) :=
  (cs.splitBy fun a b => isWhitespace a == isWhitespace b).filter fun part =>
    !(part.all isWhitespace)

/-- `str::lines`: a line ends with `\n` or `\r\n`; text behind the last break is a line too. -/
def lines (cs : List Char) : List (List Char) :=
  let parts := splitOn '\n' cs
  let ended := parts.dropLast.map fun line =>
    if line.getLast? = some '\r' then line.dropLast else line
  match parts.getLast? with
  | some [] | none => ended
  | some rest => ended ++ [rest]

/-- The lines of a text in which every line is ended; an ending `\r` is cut off. -/
theorem lines_joined {ls : List (List Char)} (h : ∀ l ∈ ls, '\n' ∉ l) :
    lines (ls.flatMap (· ++ ['\n'])) =
      ls.map fun line => if line.getLast? = some '\r' then line.dropLast else line := by
  have hsplit : splitOn '\n' (ls.flatMap (· ++ ['\n'])) = ls ++ [[]] := by
    induction ls with
    | nil => rfl
    | cons l ls ih =>
      rw [flatMap_cons, append_assoc, singleton_append, splitOn_append,
        splitOn_of_not_mem (h l mem_cons_self),
        ih (forall_mem_cons.mp h).2]
      rfl
  unfold lines
  simp only [hsplit, dropLast_concat, getLast?_concat]

/-- `str::trim_matches`. -/
def trimMatches (p : Char → Bool) (cs : List Char) : List Char := (cs.dropWhile p).rdropWhile p

/-- `str::splitn` at a character: at most `n` parts, the last one takes the rest. -/
def splitN (sep : Char) : Nat → List Char → List (List Char)
  | 0, _ => []
  | 1, cs => [cs]
  | n + 2, cs =>
    if sep ∈ cs then
      cs.takeWhile (· != sep) :: splitN sep (n + 1) ((cs.dropWhile (· != sep)).drop 1)
    else [cs]

theorem splitN_of_not_mem (h : sep ∉ cs) : splitN sep (n + 1) cs = [cs] := by
  cases n with
  | zero => rfl
  | succ n => rw [splitN, if_neg h]

theorem splitN_append {field : List Char} (h : sep ∉ field) :
    splitN sep (n + 2) (field ++ sep :: rest) = field :: splitN sep (n + 1) rest := by
  have hne : ∀ c ∈ field, (c != sep) = true := by
    intro c hc
    rw [bne_iff_ne]
    rintro rfl
    exact h hc
  rw [splitN, if_pos (by simp), takeWhile_append_of_pos hne, dropWhile_append_of_pos hne]
  simp

/-! ## Numbers -/

theorem toNat_of_isDigit (h : c.isDigit = true) : 0x30 ≤ c.toNat ∧ c.toNat ≤ 0x39 := by
  simpa [Char.isDigit, UInt32.le_iff_toNat_le] using h

theorem not_isAlpha_of_isDigit (h : c.isDigit = true) : ¬ c.isAlpha = true := by
  delta Char.isAlpha Char.isUpper Char.isLower
  simp only [Char.isDigit] at h
  grind

theorem toLower_of_isDigit (h : c.isDigit = true) : c.toLower = c := by
  delta Char.toLower
  simp only [Char.isDigit] at h
  grind

/-- The value of a non-empty run of ASCII digits. -/
def parseDigits (cs : List Char) : Option Nat :=
  if cs.isEmpty then none
  else if cs.all Char.isDigit then
    some (cs.foldl (fun n c => 10 * n + (c.toNat - 0x30)) 0)
  else none

theorem parseDigits_of_isDigit (hne : cs ≠ []) (h : ∀ c ∈ cs, c.isDigit = true) :
    parseDigits cs = some (Nat.ofDigitChars 10 cs 0) := by
  unfold parseDigits
  rw [if_neg (by simpa using hne), if_pos (by simpa using h)]
  rfl

theorem toList_toString : (toString n).toList = Nat.toDigits 10 n := String.toList_ofList

theorem isDigit_of_mem_toString (n : Nat) (h : c ∈ (toString n).toList) : c.isDigit = true :=
  Nat.isDigit_of_mem_toDigits (by decide) (by decide) (toList_toString ▸ h)

theorem toString_ne_nil : (toString n).toList ≠ [] :=
  toList_toString ▸ Nat.toDigits_ne_nil

theorem exists_toString : ∃ d ds, (toString n).toList = d :: ds ∧ d.isDigit = true := by
  obtain ⟨d, ds, hds⟩ := exists_cons_of_ne_nil toString_ne_nil
  exact ⟨d, ds, hds, isDigit_of_mem_toString n (hds ▸ mem_cons_self)⟩

/-- A number is read back from its digits. -/
theorem parseDigits_toString (n : Nat) : parseDigits (toString n).toList = some n := by
  rw [parseDigits_of_isDigit toString_ne_nil fun _ => isDigit_of_mem_toString n, toList_toString,
    Nat.ofDigitChars_toDigits (by decide) (by decide)]

/-- `str::parse::<u64>`: an optional `+`, then digits that fit 64 bits. -/
def parseU64 (s : String) : Option UInt64 :=
  let digits := match s.toList with
    | '+' :: rest => rest
    | cs => cs
  match parseDigits digits with
  | some n => if n < 2 ^ 64 then some (UInt64.ofNat n) else none
  | none => none

/-- `str::parse::<i64>`: an optional sign, then digits within the signed range. -/
def parseI64 (s : String) : Option Int :=
  match s.toList with
  | '-' :: rest =>
    match parseDigits rest with
    | some n => if n ≤ 2 ^ 63 then some (-(n : Int)) else none
    | none => none
  | cs =>
    let digits := match cs with
      | '+' :: rest => rest
      | _ => cs
    match parseDigits digits with
    | some n => if n < 2 ^ 63 then some (n : Int) else none
    | none => none

/-- The `as u64` cast of a signed number: its two's complement. -/
def cellOfInt (n : Int) : UInt64 := UInt64.ofNat (n % 2 ^ 64).toNat

end TensorVault.Text
