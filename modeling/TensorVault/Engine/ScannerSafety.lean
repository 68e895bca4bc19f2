import TensorVault.Engine.Scanners

/-!
# When the scanners do not panic

On an ASCII text an offset found in a case-folded copy cuts the text where it is meant to. One slice
can fail even there: `extract_json_value_calls` cuts from SELECT to the call, and panics if the call
stands first (`SelectFirst`). A text that is not ASCII is in danger where a scanner has found its
words in it (`Cuts`): behind an `A` in the name of a view, any longer character is cut in two. UNION
ALL only needs that folding the case keeps the widths of the characters (`KeepsWidths`).
`panicFree_of_cuts` puts the scanners together.
-/

namespace TensorVault.Scan

variable {cs rest pat : List Char} {sql : String} {α : Type}

open Text List

/-! ## Results without a panic -/

/-- The call returns, and what it returns satisfies `Q`. -/
def Returns {α : Type} (x : Option α) (Q : α → Prop) : Prop := ∃ a, x = some a ∧ Q a

variable {β : Type} {x : Option α} {P : α → Prop} {Q : β → Prop}

theorem Returns.bind {f : α → Option β}
    (hx : Returns x P) (hf : ∀ a, P a → Returns (f a) Q) : Returns (x.bind f) Q := by
  obtain ⟨a, rfl, ha⟩ := hx
  exact hf a ha

theorem Returns.map {f : α → β}
    (hx : Returns x P) (hf : ∀ a, P a → Q (f a)) : Returns (x.map f) Q := by
  obtain ⟨a, rfl, ha⟩ := hx
  exact ⟨f a, rfl, hf a ha⟩

theorem Returns.mono {Q : α → Prop} (hx : Returns x P) (h : ∀ a, P a → Q a) : Returns x Q := by
  obtain ⟨a, rfl, ha⟩ := hx
  exact ⟨a, rfl, h a ha⟩

variable {Q : α → Prop} {n : Nat} {H : Host} {i : Nat} {depth : Int} {inside : List Char}

theorem returns_some {a : α} (h : Q a) : Returns (some a) Q :=
  ⟨a, rfl, h⟩

theorem Returns.ne_none (h : Returns x Q) : x ≠ none := by
  obtain ⟨a, rfl, -⟩ := h
  exact Option.some_ne_none a

/-- The call returns an error, or a value that satisfies `Q`. -/
def Safe {α : Type} (x : Outcome α) (Q : α → Prop) : Prop :=
  match x with
  | .ok a => Q a
  | .err _ => True
  | .panic => False

theorem Safe.bind {x : Outcome α} {f : α → Outcome β} {Q : β → Prop}
    (hx : Safe x P) (hf : ∀ a, P a → Safe (f a) Q) : Safe (x.bind f) Q := by
  cases x with
  | ok a => exact hf a hx
  | err e => trivial
  | panic => exact hx

theorem Returns.safe (h : Returns x Q) : Safe (Outcome.ofOption x) Q := by
  obtain ⟨a, rfl, ha⟩ := h
  exact ha

theorem Safe.ne_panic {x : Outcome α} (h : Safe x Q) : x ≠ .panic := by
  rintro rfl
  exact h

theorem returns_dropBytes (h : Ascii cs) (hn : n ≤ cs.length) :
    Returns (dropBytes n cs) fun rest => rest = cs.drop n ∧ Ascii rest :=
  ⟨cs.drop n, dropBytes_of_ascii h hn, rfl, h.drop n⟩

theorem returns_takeBytes (h : Ascii cs) (hn : n ≤ cs.length) :
    Returns (takeBytes n cs) fun part => part = cs.take n ∧ Ascii part :=
  ⟨cs.take n, takeBytes_of_ascii h hn, rfl, h.take⟩

/-! ## Case-folded copies -/

theorem upper_of_ascii (hu : H.UppersByCharacter) (h : Ascii cs) :
    upper H cs = cs.map Char.toUpper := by
  obtain ⟨f, hf, hupper⟩ := hu
  rw [upper, hupper, String.toList_ofList, map_eq_flatMap]
  exact flatMap_congr fun c hc => hf c (h c hc)

theorem lower_of_ascii (hl : H.LowersAscii) (h : Ascii cs) : lower H cs = cs.map Char.toLower := by
  rw [lower, hl _ (by rwa [String.toList_ofList]), String.toList_ofList, String.toList_ofList]

/-- What is found in the upper-cased copy of an ASCII text stands in the text. -/
theorem le_length_of_find_upper (hu : H.UppersByCharacter) (h : Ascii cs) (hne : pat ≠ [])
    (hfind : findBytes pat (upper H cs) = some i) : i + pat.length ≤ cs.length := by
  rw [upper_of_ascii hu h] at hfind
  have hle := add_length_le_of_prefix_drop hne (findBytes_of_ascii h.map_toUpper hfind).1
  rwa [length_map] at hle

theorem le_length_of_find_lower (hl : H.LowersAscii) (h : Ascii cs) (hne : pat ≠ [])
    (hfind : findBytes pat (lower H cs) = some i) : i + pat.length ≤ cs.length := by
  rw [lower_of_ascii hl h] at hfind
  have hle := add_length_le_of_prefix_drop hne (findBytes_of_ascii h.map_toLower hfind).1
  rwa [length_map] at hle

theorem le_length_of_prefix_upper (hu : H.UppersByCharacter) (h : Ascii cs)
    (hpre : pat.isPrefixOf (upper H cs) = true) : pat.length ≤ cs.length := by
  have hle := (List.isPrefixOf_iff_prefix.mp hpre).length_le
  rwa [upper_of_ascii hu h, length_map] at hle

/-! ## Parentheses -/

theorem splitClose_infix
    (h : splitClose depth cs = some (inside, rest)) : cs = inside ++ ')' :: rest := by
  induction cs generalizing depth inside with
  | nil => cases h
  | cons c cs ih =>
    rw [splitClose] at h
    split at h
    · next hc =>
      cases h
      rw [hc.1, nil_append]
    · obtain ⟨⟨inside', rest'⟩, hsplit, hpair⟩ := Option.map_eq_some_iff.mp h
      cases hpair
      rw [ih hsplit, cons_append]

/-- Inside the parentheses every closing one has an opening one before it. -/
theorem splitClose_opened (h : splitClose 1 cs = some (inside, rest)) :
    ∀ a b, inside = a ++ ')' :: b → '(' ∈ a := by
  induction cs generalizing inside with
  | nil => cases h
  | cons c cs ih =>
    rw [splitClose] at h
    split at h
    · cases h
      intro a b hab
      simp at hab
    · next hc =>
      obtain ⟨⟨inside', rest'⟩, hsplit, hpair⟩ := Option.map_eq_some_iff.mp h
      cases hpair
      rintro (_ | ⟨d, a⟩) b hab
      · rw [nil_append, List.cons.injEq] at hab
        exact absurd ⟨hab.1, rfl⟩ hc
      · rw [cons_append, List.cons.injEq] at hab
        obtain ⟨rfl, hab⟩ := hab
        by_cases hopen : c = '('
        · exact hopen ▸ mem_cons_self
        · have hclose : c ≠ ')' := fun hclose => hc ⟨hclose, rfl⟩
          rw [if_neg hopen, if_neg hclose] at hsplit
          exact mem_cons_of_mem _ (ih hsplit a b hab)

/-! ## WITH -/

theorem returns_findTopLevelUnionAll (depth : Int) (h : Ascii cs) :
    Returns (findTopLevelUnionAll depth cs) fun found => ∀ pos, found = some pos →
      ((cs.drop pos).take 9).map Char.toLower = "union all".toList := by
  induction cs generalizing depth with
  | nil => exact returns_some (by simp)
  | cons c cs ih =>
    have hwidth := utf8Width_of_ascii (h c mem_cons_self)
    have hnext : ∀ depth, Returns ((findTopLevelUnionAll depth cs).map (Option.map (· + 1)))
        fun found => ∀ pos, found = some pos →
          (((c :: cs).drop pos).take 9).map Char.toLower = "union all".toList := by
      intro depth
      refine (ih depth h.tail).map fun found hfound pos hpos => ?_
      obtain ⟨pos, hat, rfl⟩ := Option.map_eq_some_iff.mp hpos
      exact hfound pos hat
    rw [findTopLevelUnionAll]
    split
    · exact hnext _
    · split
      · exact hnext _
      · split
        · next hlen =>
          rw [byteLength_of_ascii h] at hlen
          rw [takeBytes_of_ascii h hlen.2, Option.bind_some]
          split
          · next heq =>
            refine returns_some fun pos hpos => ?_
            cases hpos
            rw [eqIgnoreAsciiCase, String.toList_ofList, beq_iff_eq] at heq
            exact heq
          · rw [if_neg (by omega), hwidth]
            exact hnext _
        · rw [hwidth]
          exact hnext _

/-- A keyword at the start of an ASCII text survives trimming. -/
theorem length_le_trimChars_of_keyword {word : List Char} (h : Ascii word)
    (hmap : word.map Char.toLower = "union all".toList) :
    9 ≤ (trimChars (word ++ rest)).length := by
  have hspace : ∀ c ∈ word, isWhitespace c = isWhitespace c.toLower := fun c hc =>
    forall_ascii (P := fun c => isWhitespace c = isWhitespace c.toLower) (by decide) (h c hc)
  have hlen : word.length = 9 := by
    have hlen := congrArg List.length hmap
    rwa [length_map] at hlen
  have hend : ∀ o : Option Char, (∀ c, o = some c → c ∈ word) →
      (o.map Char.toLower).all (!isWhitespace ·) = true → o.all (!isWhitespace ·) = true := by
    rintro (_ | c) hmem hall
    · rfl
    · simpa [hspace c (hmem c rfl)] using hall
  rw [← hlen]
  refine (prefix_trimChars (hend _ (fun _ => mem_of_head?) ?_)
    (hend _ (fun _ => mem_of_getLast?) ?_)).length_le
  · rw [← head?_map, hmap]
    rfl
  · rw [← getLast?_map, hmap]
    rfl

section

variable (hu : H.UppersByCharacter)
include hu

/-- The keyword found in the upper-cased body is cut from the body. -/
theorem returns_splitBody {body : List Char} (h : Ascii body) :
    Returns (splitBody H body) fun _ => True := by
  rw [splitBody, upper_of_ascii hu h]
  refine (returns_findTopLevelUnionAll 0 h.map_toUpper).bind fun found hfound => ?_
  cases found with
  | none => exact returns_some trivial
  | some pos =>
    have hfold : ∀ c ∈ (body.drop pos).take 9, (Char.toLower ∘ Char.toUpper) c = c.toLower :=
      fun c hc => forall_ascii (P := fun c => c.toUpper.toLower = c.toLower) (by decide)
        ((h.drop pos).take c hc)
    have hmap : ((body.drop pos).take 9).map Char.toLower = "union all".toList := by
      rw [← hfound pos rfl, ← map_drop, ← map_take, map_map]
      exact (map_congr_left hfold).symm
    have hlen : pos + 9 ≤ body.length := by
      have hlen := congrArg List.length hmap
      simp only [length_map, length_take, length_drop] at hlen
      have hnine : "union all".toList.length = 9 := rfl
      omega
    have htrim : 9 ≤ (trimChars (_ ++ (body.drop pos).drop 9)).length :=
      length_le_trimChars_of_keyword ((h.drop pos).take) hmap
    rw [take_append_drop] at htrim
    refine (returns_takeBytes h (by omega)).bind fun anchor _ => ?_
    refine (returns_dropBytes h (by omega)).bind fun after hafter => ?_
    obtain ⟨rfl, hafter⟩ := hafter
    exact (returns_dropBytes hafter.trimChars htrim).bind fun _ _ => returns_some trivial

theorem safe_parseCte (h : Ascii rest) : Safe (parseCte H rest) fun parsed => Ascii parsed.2 := by
  rw [parseCte]
  split
  · trivial
  · generalize hname : (trimStart ((trimStart rest).dropWhile _)) = after
    have hafter : Ascii after := by
      rw [← hname]
      exact (h.trimStart.of_sublist (dropWhile_suffix _).sublist).trimStart
    dsimp only
    split
    · trivial
    · next has =>
      rw [Bool.not_eq_true, Bool.not_eq_false'] at has
      have hlen := le_length_of_prefix_upper hu hafter has
      refine (returns_dropBytes hafter hlen).safe.bind fun body hbody => ?_
      split
      · trivial
      · split
        · trivial
        · next inside rest' hsplit =>
          have hparts : Ascii (inside ++ ')' :: rest') := by
            rw [← splitClose_infix hsplit]
            exact hbody.2.trimStart
          have hinside := (hparts.of_sublist (sublist_append_left _ _)).drop 1
          refine (returns_splitBody hu hinside).safe.bind fun _ _ => ?_
          exact (hparts.of_sublist (sublist_append_right _ _)).tail

theorem safe_parseCtes {fuel : Nat} (h : Ascii rest) :
    Safe (parseCtes H fuel rest) fun parsed => Ascii parsed.2 := by
  induction fuel generalizing rest with
  | zero => exact h
  | succ fuel ih =>
    refine (safe_parseCte hu h).bind fun parsed hparsed => ?_
    have htrim : Ascii (trimStart parsed.2) := hparsed.trimStart
    dsimp only
    split
    · next rest' heq =>
      rw [heq] at htrim
      exact (ih htrim.tail).bind fun _ hrest => hrest
    · exact htrim

theorem returns_splitOption {query : List Char} (h : Ascii query) :
    Returns (splitOption H query) fun _ => True := by
  rw [splitOption]
  split
  · exact returns_some trivial
  · next optPos hopt =>
    have hlen := le_length_of_find_upper hu h (by decide) hopt
    refine (returns_dropBytes h (by omega)).bind fun afterOpt hafter => ?_
    split
    · exact returns_some trivial
    · next mrPos hmr =>
      have hlen' := le_length_of_find_upper hu hafter.2 (by decide) hmr
      refine (returns_dropBytes hafter.2 hlen').bind fun afterMr _ => ?_
      exact (returns_takeBytes h (by omega)).map fun _ _ => trivial

theorem safe_parseWithInner (h : Ascii sql.toList) : Safe (parseWithInner H sql) fun _ => True := by
  rw [parseWithInner]
  split
  · trivial
  · next withPos hwith =>
    have hlen := le_length_of_find_upper hu h (by decide) hwith
    refine (returns_dropBytes h hlen).safe.bind fun afterWith hafter => ?_
    have hstart : Returns (if "RECURSIVE ".toList.isPrefixOf (upper H (trimStart afterWith)) then
        dropBytes 10 (trimStart afterWith) else some afterWith) Ascii := by
      split
      · next hrec =>
        exact (returns_dropBytes hafter.2.trimStart
          (le_length_of_prefix_upper hu hafter.2.trimStart hrec)).mono fun _ hrest => hrest.2
      · exact returns_some hafter.2
    refine hstart.safe.bind fun start hstart => ?_
    refine (safe_parseCtes hu hstart).bind fun parsed hparsed => ?_
    exact (returns_splitOption hu hparsed.trimChars).safe.bind fun _ _ => trivial

/-! ## Views -/

omit hu in
theorem returns_viewName (h : Ascii cs) : Returns (viewName H cs) fun parsed => Ascii parsed.2 := by
  induction cs with
  | nil => exact returns_some (by simp [Ascii])
  | cons c cs ih =>
    have hnext : Returns ((viewName H cs).map fun parsed => (c :: parsed.1, parsed.2))
        fun parsed => Ascii parsed.2 := (ih h.tail).map fun _ hparsed => hparsed
    rw [viewName]
    split
    · split
      · next hlen =>
        rw [byteLength_of_ascii h] at hlen
        refine (returns_takeBytes h hlen).bind fun nextTwo _ => ?_
        split
        · exact returns_some h
        · split
          · exact returns_some h
          · exact hnext
      · split
        · exact returns_some h
        · exact hnext
    · exact hnext

theorem returns_removeClause {clause : List Char} (hne : clause ≠ [])
    (hclause : Ascii clause) (h : Ascii cs) : Returns (removeClause H clause cs) Ascii := by
  rw [removeClause]
  split
  · exact returns_some h
  · next i hi =>
    have hlen := le_length_of_find_upper hu h hne hi
    rw [byteLength_of_ascii hclause]
    refine (returns_takeBytes h (by omega)).bind fun before hbefore => ?_
    refine (returns_dropBytes h hlen).bind fun after hafter => returns_some ?_
    refine Ascii.trimChars fun c hc => ?_
    rcases mem_append.mp hc with hc | hc
    · exact hbefore.2 c hc
    · exact hafter.2 c hc

theorem returns_removeIfPresent {upperRest : List Char} {clause : String}
    (hne : clause.toList ≠ []) (hclause : Ascii clause.toList) (h : Ascii cs) :
    Returns (removeIfPresent H upperRest clause cs) Ascii := by
  rw [removeIfPresent]
  split
  · exact returns_removeClause hu hne hclause h
  · exact returns_some h

theorem safe_viewSelect (h : Ascii rest) : Safe (viewSelect H rest) Ascii := by
  rw [viewSelect]
  split
  · trivial
  · next has =>
    rw [Bool.not_eq_true, Bool.not_eq_false'] at has
    refine Returns.safe ?_
    refine (returns_dropBytes h (le_length_of_prefix_upper hu h has)).bind fun select hselect => ?_
    refine (returns_removeIfPresent hu (by decide) (by decide) hselect.2.trimChars).bind
      fun select hselect => ?_
    exact returns_removeIfPresent hu (by decide) (by decide) hselect

omit hu in
theorem safe_skipAliases (h : Ascii rest) : Safe (skipAliases rest) Ascii := by
  rw [skipAliases]
  split
  · split
    · exact ((h.of_sublist (dropWhile_suffix _).sublist).drop 1).trimChars
    · trivial
  · exact h

theorem safe_parseCreateView (h : Ascii sql.toList) {start : List Char}
    (hstart : start.isPrefixOf (upper H (trimChars sql.toList)) = true) (hlen : 7 ≤ start.length) :
    Safe (parseCreateViewInner H sql) fun _ => True := by
  have htrim := h.trimChars
  have hcreate : Returns (if "CREATE OR ALTER ".toList.isPrefixOf (upper H (trimChars sql.toList))
      then dropBytes 16 (trimChars sql.toList) else dropBytes 7 (trimChars sql.toList)) Ascii := by
    split
    · next hor =>
      exact (returns_dropBytes htrim (le_length_of_prefix_upper hu htrim hor)).mono
        fun _ hrest => hrest.2
    · exact (returns_dropBytes htrim (hlen.trans (le_length_of_prefix_upper hu htrim hstart))).mono
        fun _ hrest => hrest.2
  refine hcreate.safe.bind fun afterCreate hafter => ?_
  split
  · trivial
  · next hview =>
    rw [Bool.not_eq_true, Bool.not_eq_false'] at hview
    refine (returns_dropBytes hafter (le_length_of_prefix_upper hu hafter hview)).safe.bind
      fun afterView hview => ?_
    refine (returns_viewName hview.2).safe.bind fun parsed hparsed => ?_
    refine (safe_skipAliases hparsed.trimChars).bind fun rest hrest => ?_
    exact (safe_viewSelect hu hrest).bind fun _ _ => trivial

theorem returns_dropViewName {trimmed : List Char} (h : Ascii trimmed)
    (hlen : 10 ≤ trimmed.length) : Returns (dropViewName H trimmed) fun _ => True := by
  refine (returns_dropBytes h hlen).bind fun rest hrest => ?_
  have hname : Returns (if "IF EXISTS ".toList.isPrefixOf (upper H rest) then dropBytes 10 rest
      else some rest) fun _ => True := by
    split
    · next hif =>
      exact (returns_dropBytes hrest.2 (le_length_of_prefix_upper hu hrest.2 hif)).mono
        fun _ _ => trivial
    · exact returns_some trivial
  exact hname.map fun _ _ => trivial

end

/-! ## FOR SYSTEM_TIME AS OF and UNION ALL -/

theorem returns_lastFrom (hl : H.LowersAscii) {before : List Char} (h : Ascii before) :
    Returns (lastFrom H before) fun _ => True := by
  rw [lastFrom]
  split
  · exact returns_some trivial
  · next fromPos hfrom =>
    rw [lower_of_ascii hl h] at hfrom
    have hlen := add_length_le_of_prefix_drop (by decide) (rfindBytes_of_ascii h.map_toLower hfrom)
    rw [length_map] at hlen
    exact (returns_dropBytes h hlen).map fun _ _ => trivial

theorem returns_parseForSystemTime (hl : H.LowersAscii) (h : Ascii sql.toList) :
    Returns (parseForSystemTime H sql) fun _ => True := by
  rw [parseForSystemTime]
  split
  · exact returns_some trivial
  · next pos hpos =>
    have hlen := le_length_of_find_lower hl h (by decide) hpos
    refine (returns_dropBytes h hlen).bind fun after _ => ?_
    split
    · exact returns_some trivial
    · refine (returns_takeBytes h (by omega)).bind fun before hbefore => ?_
      exact (returns_lastFrom hl hbefore.2).map fun _ _ => trivial

variable {searchFrom fuel : Nat}

/-- Folding the case of the text keeps the width of every character, so that an offset into the copy
is one into the text. -/
def KeepsWidths (H : Host) (cs : List Char) : Prop := (lower H cs).map utf8Width = cs.map utf8Width

instance (H : Host) (cs : List Char) : Decidable (KeepsWidths H cs) :=
  inferInstanceAs (Decidable (_ = _))

section Widths

variable {cs low : List Char} (hw : low.map utf8Width = cs.map utf8Width) (k : Nat)

include hw

theorem byteLength_take_of_widths : byteLength (low.take k) = byteLength (cs.take k) := by
  rw [byteLength, byteLength, map_take, map_take, hw]

theorem dropBytes_of_widths : dropBytes (byteLength (low.take k)) cs = some (cs.drop k) := by
  have hdrop := dropBytes_append (cs.take k) (cs.drop k)
  rwa [take_append_drop, ← byteLength_take_of_widths hw] at hdrop

theorem takeBytes_of_widths : takeBytes (byteLength (low.take k)) cs = some (cs.take k) := by
  have htake := takeBytes_append (cs.take k) (cs.drop k)
  rwa [take_append_drop, ← byteLength_take_of_widths hw] at htake

/-- What the loop of `split_union_all` does from a character on: it goes to the next place of the
keyword, `j` characters further, and cuts the text if that place stands outside parentheses. -/
theorem splitUnionAllLoop_eq :
    (splitUnionAllLoop cs low (fuel + 1) (byteLength (low.take k)) = some none ∧
      ∀ j, ¬ "union all".toList <+: low.drop (k + j)) ∨
    ∃ j, "union all".toList <+: low.drop (k + j) ∧
      (∀ i < j, ¬ "union all".toList <+: low.drop (k + i)) ∧
      splitUnionAllLoop cs low (fuel + 1) (byteLength (low.take k)) =
        if Scan.depth (cs.take (k + j)) = 0 ∧ trimChars (cs.take (k + j)) ≠ [] ∧
            trimChars (cs.drop (k + j + 9)) ≠ [] then
          some (some (String.ofList (trimChars (cs.take (k + j))),
            String.ofList (trimChars (cs.drop (k + j + 9)))))
        else splitUnionAllLoop cs low fuel (byteLength (low.take (k + j + 9))) := by
  rw [splitUnionAllLoop, dropBytes_of_widths (Eq.refl (low.map utf8Width)), Option.bind_some]
  cases hfind : findBytes "union all".toList (low.drop k) with
  | none =>
    refine .inl ⟨rfl, fun j hat => ?_⟩
    rw [← drop_drop] at hat
    have hle := add_length_le_of_prefix_drop (by decide) hat
    exact findBytes_ne_none hat (Nat.le_of_add_right_le hle) hfind
  | some pos =>
    obtain ⟨j, -, rfl, hat, hfirst⟩ := findBytes_eq_some hfind
    refine .inr
      ⟨j, by rwa [drop_drop] at hat, fun i hi => by simpa [drop_drop] using hfirst i hi, ?_⟩
    have hj : byteLength (low.take k) + byteLength ((low.drop k).take j) =
        byteLength (low.take (k + j)) := by
      rw [take_add, byteLength_append]
    have hnine : byteLength (low.take (k + j)) + 9 = byteLength (low.take (k + j + 9)) := by
      obtain ⟨rest, hrest⟩ := hat
      rw [drop_drop] at hrest
      rw [take_add (i := k + j), byteLength_append, ← hrest]
      rfl
    simp only [hj, hnine, takeBytes_of_widths hw, dropBytes_of_widths hw, Option.bind_some]
    by_cases hdepth : Scan.depth (cs.take (k + j)) = 0 <;> simp [hdepth]

theorem returns_splitUnionAllLoop :
    Returns (splitUnionAllLoop cs low fuel (byteLength (low.take k))) fun _ => True := by
  induction fuel generalizing k with
  | zero => exact returns_some trivial
  | succ fuel ih =>
    rcases splitUnionAllLoop_eq hw k with ⟨hnone, -⟩ | ⟨j, -, -, hloop⟩
    · exact ⟨_, hnone, trivial⟩
    · rw [hloop]
      split
      · exact returns_some trivial
      · exact ih _

end Widths

theorem returns_splitUnionAll (h : KeepsWidths H sql.toList) :
    Returns (splitUnionAll H sql) fun _ => True :=
  returns_splitUnionAllLoop h 0

/-! ## PIVOT -/

/-- Every closing parenthesis has an opening one somewhere before it. -/
def Opened (cs : List Char) : Prop := ∀ a b, cs = a ++ ')' :: b → '(' ∈ a

variable {part : List Char}

theorem Opened.of_prefix (h : Opened cs) (hpre : part <+: cs) : Opened part := by
  obtain ⟨rest, rfl⟩ := hpre
  rintro a b rfl
  exact h a (b ++ rest) (by simp)

theorem Opened.trimChars (h : Opened cs) : Opened (trimChars cs) := by
  refine Opened.of_prefix ?_ <| rdropWhile_prefix _ _
  intro a b hab
  have hall : cs = (cs.takeWhile isWhitespace ++ a) ++ ')' :: b := by
    rw [append_assoc, ← hab, takeWhile_append_dropWhile]
  rcases mem_append.mp (h _ _ hall) with hmem | hmem
  · exact absurd (mem_takeWhile_imp hmem) (by decide)
  · exact hmem

/-- The first opening parenthesis stands before the last closing one. -/
theorem Opened.find_lt_rfind (h : Opened cs) (hascii : Ascii cs) {first last : Nat}
    (hfirst : findBytes ['('] cs = some first) (hlast : rfindBytes [')'] cs = some last) :
    first < last ∧ last < cs.length := by
  obtain ⟨rest, hrest⟩ := rfindBytes_of_ascii hascii hlast
  have hlen := add_length_le_of_prefix_drop (by decide) ⟨rest, hrest⟩
  have hsplit : cs = cs.take last ++ ')' :: rest := by
    rw [← singleton_append, hrest, take_append_drop]
  obtain ⟨j, hj, hget⟩ := getElem_of_mem (h _ _ hsplit)
  rw [length_take] at hj
  refine ⟨?_, hlen⟩
  by_contra hle
  refine (findBytes_of_ascii hascii hfirst).2 j (by omega) ?_
  rw [getElem_take] at hget
  rw [drop_eq_getElem_cons (by omega), hget]
  exact ⟨_, rfl⟩

theorem returns_pivotAggregate (h : Ascii part) (hopen : Opened part) :
    Returns (pivotAggregate H part) fun _ => True := by
  rw [pivotAggregate]
  split
  · next first last hfirst hlast =>
    obtain ⟨hlt, hlen⟩ := hopen.find_lt_rfind h hfirst hlast
    refine (returns_takeBytes h (by omega)).bind fun agg _ => ?_
    rw [sliceBytes_of_ascii h hlt hlen.le]
    exact returns_some trivial
  · exact returns_some trivial

theorem returns_pivotColumn (hl : H.LowersAscii) {afterFor : List Char} (h : Ascii afterFor) :
    Returns (pivotColumn H afterFor) fun _ => True := by
  rw [pivotColumn]
  split
  · exact returns_some trivial
  · next inPos hin =>
    have hlen := le_length_of_find_lower hl h (by decide) hin
    refine (returns_takeBytes h (by omega)).bind fun pivotCol _ => ?_
    exact (returns_dropBytes h hlen).map fun _ _ => trivial

theorem returns_pivotSpec (hl : H.LowersAscii) {inner : List Char} (h : Ascii inner)
    (hopen : Opened inner) : Returns (pivotSpec H inner) fun _ => True := by
  rw [pivotSpec]
  split
  · exact returns_some trivial
  · next forPos hfor =>
    have hlen := le_length_of_find_lower hl h (by decide) hfor
    refine (returns_takeBytes h (by omega)).bind fun aggPart hagg => ?_
    refine (returns_dropBytes h hlen).bind fun afterFor hafter => ?_
    refine (returns_pivotColumn hl hafter.2).bind fun column _ => ?_
    cases column with
    | none => exact returns_some trivial
    | some column =>
      have hpart : Opened aggPart := by
        rw [hagg.1]
        exact hopen.of_prefix <| take_prefix _ _
      exact (returns_pivotAggregate hagg.2.trimChars hpart.trimChars).map fun _ _ => trivial

theorem returns_parsePivotClause (hl : H.LowersAscii) (h : Ascii sql.toList) :
    Returns (parsePivotClause H sql) fun _ => True := by
  rw [parsePivotClause]
  split
  · exact returns_some trivial
  · next pivotPos hpivot =>
    have hlen := le_length_of_find_lower hl h (by decide) hpivot
    refine (returns_dropBytes h hlen).bind fun afterPivot hafter => ?_
    have htrim := hafter.2.trimStart
    generalize trimStart afterPivot = cs at htrim ⊢
    dsimp only
    split
    · exact returns_some trivial
    · next hhead =>
      split
      · exact returns_some trivial
      · next inside rest hsplit =>
        rw [ne_eq, not_not] at hhead
        obtain ⟨cs, rfl⟩ : ∃ tail, cs = '(' :: tail := ⟨_, eq_cons_of_mem_head? hhead⟩
        obtain ⟨⟨inner, rest'⟩, hinner, hpair⟩ := Option.map_eq_some_iff.mp hsplit
        cases hpair
        have hascii : Ascii (inner ++ ')' :: rest) := splitClose_infix hinner ▸ htrim.tail
        exact returns_pivotSpec hl (hascii.of_sublist (sublist_append_left _ _))
          (splitClose_opened hinner)

theorem aliasLength_le (H : Host) (cs : List Char) : aliasLength H cs ≤ cs.length :=
  List.IsPrefix.length_le <| takeWhile_prefix _

theorem returns_skipAlias (hu : H.UppersByCharacter) (h : Ascii rest) :
    Returns (skipAlias H rest) fun _ => True := by
  rw [skipAlias]
  split
  · next has =>
    refine (returns_dropBytes h.trimStart (le_length_of_prefix_upper hu h.trimStart has)).bind
      fun afterAs hafter => ?_
    exact (returns_dropBytes hafter.2 (aliasLength_le H afterAs)).mono fun _ _ => trivial
  · exact returns_some trivial

theorem returns_stripPivotClause (hl : H.LowersAscii) (hu : H.UppersByCharacter)
    (h : Ascii sql.toList) : Returns (stripPivotClause H sql) fun _ => True := by
  rw [stripPivotClause]
  split
  · exact returns_some trivial
  · next pivotPos hpivot =>
    have hlen := le_length_of_find_lower hl h (by decide) hpivot
    refine (returns_dropBytes h hlen).bind fun afterPivot hafter => ?_
    split
    · exact returns_some trivial
    · next inside rest hsplit =>
      have hascii : Ascii (inside ++ ')' :: rest) := splitClose_infix hsplit ▸ hafter.2.trimStart
      have hrest := (hascii.of_sublist (sublist_append_right _ _)).tail
      refine (returns_skipAlias hu hrest).bind fun rest _ => ?_
      exact (returns_takeBytes h (by omega)).map fun _ _ => trivial

/-! ## JSON_VALUE and JSON_QUERY -/

theorem skipBytes_of_ascii (h : Ascii cs) (hn : n ≤ cs.length) :
    skipBytes n cs = (0, cs.drop n) := by
  induction cs generalizing n with
  | nil => simp [Nat.le_zero.mp hn, skipBytes]
  | cons c cs ih =>
    cases n with
    | zero => rfl
    | succ n =>
      have hc := utf8Width_of_ascii (h c mem_cons_self)
      rw [skipBytes, if_pos (by omega), hc, Nat.add_sub_cancel,
        ih h.tail (Nat.le_of_succ_le_succ hn), drop_succ_cons]

theorem closeOffset_lt (h : Ascii cs) {inStr : Bool} {offset : Nat}
    (hclose : closeOffset depth inStr cs = some offset) : offset < cs.length := by
  induction cs generalizing depth inStr offset with
  | nil => cases inStr <;> cases hclose
  | cons c cs ih =>
    have hc := utf8Width_of_ascii (h c mem_cons_self)
    have hnext : ∀ {depth inStr}, (closeOffset depth inStr cs).map (· + utf8Width c) = some offset →
        offset < (c :: cs).length := by
      intro depth inStr hmap
      obtain ⟨k, hk, rfl⟩ := Option.map_eq_some_iff.mp hmap
      have hlt := ih h.tail hk
      rw [length_cons]
      omega
    cases inStr with
    | true => exact hnext hclose
    | false =>
      rw [closeOffset] at hclose
      split at hclose
      · cases hclose
        exact Nat.succ_pos _
      · exact hnext hclose

theorem returns_callAlias (hu : H.UppersByCharacter) {stop : Nat} (h : Ascii rest) :
    Returns (callAlias H stop rest) fun result => result.2 ≤ stop + rest.length := by
  rw [callAlias]
  dsimp only
  have htrim := h.trimStart
  have hle := (trimStart_suffix rest).length_le
  split
  · next has =>
    have hlen := le_length_of_prefix_upper hu htrim has
    have hthree : "AS ".toList.length = 3 := rfl
    refine (returns_dropBytes htrim hlen).bind fun afterAs hafter => ?_
    have halias := aliasLength_le H afterAs
    split
    · refine (returns_takeBytes hafter.2 halias).map fun _ _ => ?_
      rw [hafter.1, length_drop] at halias
      rw [byteLength_of_ascii h, byteLength_of_ascii htrim]
      rw [hafter.1]
      omega
    · exact returns_some (Nat.le_add_right _ _)
  · exact returns_some (Nat.le_add_right _ _)

/-- The first JSON call of a text, if there is one, stands behind its first SELECT. -/
def SelectFirst (sql : String) : Prop :=
  let low := sql.toList.map Char.toLower
  ∀ sp pos isQuery, selectPos low = some sp → nextCall low = some (pos, isQuery) → sp ≤ pos

variable {low : List Char} {isQuery : Bool}

theorem nextCall_of_find (hlow : Ascii low)
    (hpat : pat = "json_value(".toList ∨ pat = "json_query(".toList) {j : Nat}
    (hat : pat <+: low.drop j) : ∃ pos isQuery, nextCall low = some (pos, isQuery) ∧ pos ≤ j := by
  have hj : j ≤ low.length := by
    by_contra hlt
    rw [drop_of_length_le (by omega), prefix_nil] at hat
    rcases hpat with rfl | rfl <;> cases hat
  have hfound : ∃ i, findBytes pat low = some i ∧ i ≤ j := by
    obtain ⟨i, hi⟩ := Option.ne_none_iff_exists'.mp (findBytes_ne_none hat hj)
    refine ⟨i, hi, ?_⟩
    by_contra hlt
    exact (findBytes_of_ascii hlow hi).2 j (by omega) hat
  obtain ⟨i, hi, hij⟩ := hfound
  rw [nextCall]
  rcases hpat with rfl | rfl
  · rw [hi]
    cases hq : findBytes "json_query(".toList low with
    | none => exact ⟨i, false, rfl, hij⟩
    | some q =>
      dsimp only
      split
      · exact ⟨i, false, rfl, hij⟩
      · exact ⟨q, true, rfl, by omega⟩
  · rw [hi]
    cases hp : findBytes "json_value(".toList low with
    | none => exact ⟨i, true, rfl, hij⟩
    | some p =>
      dsimp only
      split
      · exact ⟨p, false, rfl, by omega⟩
      · exact ⟨i, true, rfl, hij⟩

theorem prefix_of_nextCall {tail : List Char} (h : Ascii tail) {p : Nat}
    (hnext : nextCall tail = some (p, isQuery)) :
    ∃ pat, (pat = "json_value(".toList ∨ pat = "json_query(".toList) ∧ pat <+: tail.drop p := by
  rw [nextCall] at hnext
  split at hnext
  · next p' q hp hq =>
    split at hnext
    · cases hnext
      exact ⟨_, .inl rfl, (findBytes_of_ascii h hp).1⟩
    · cases hnext
      exact ⟨_, .inr rfl, (findBytes_of_ascii h hq).1⟩
  · next p' hp hq =>
    cases hnext
    exact ⟨_, .inl rfl, (findBytes_of_ascii h hp).1⟩
  · next q hp hq =>
    cases hnext
    exact ⟨_, .inr rfl, (findBytes_of_ascii h hq).1⟩
  · cases hnext

/-- Every call of the text stands behind SELECT if the first one does. -/
theorem SelectFirst.le_of_nextCall (hfirst : SelectFirst sql) (h : Ascii sql.toList)
    {p sp : Nat} (hsp : selectPos (sql.toList.map Char.toLower) = some sp)
    (hnext : nextCall ((sql.toList.map Char.toLower).drop searchFrom) = some (p, isQuery)) :
    sp ≤ p + searchFrom := by
  obtain ⟨pat, hpat, hat⟩ := prefix_of_nextCall (h.map_toLower.drop searchFrom) hnext
  rw [drop_drop] at hat
  obtain ⟨pos, isQuery', hpos, hle⟩ := nextCall_of_find h.map_toLower hpat hat
  have hsel := hfirst sp pos isQuery' hsp hpos
  omega

theorem returns_extractLoop (hu : H.UppersByCharacter) (h : Ascii sql.toList)
    (hfirst : SelectFirst sql) (hfrom : searchFrom ≤ sql.toList.length) :
    Returns (extractLoop H sql.toList (sql.toList.map Char.toLower) fuel searchFrom)
      fun _ => True := by
  have hlow := h.map_toLower
  have hlen : (sql.toList.map Char.toLower).length = sql.toList.length := length_map _
  induction fuel generalizing searchFrom with
  | zero => exact returns_some trivial
  | succ fuel ih =>
    refine (returns_dropBytes hlow (by omega)).bind fun tail htail => ?_
    split
    · exact returns_some trivial
    · next p isQuery hnext =>
      have hpos : p + searchFrom + 11 ≤ sql.toList.length := by
        obtain ⟨pat, hpat, hat⟩ := prefix_of_nextCall htail.2 hnext
        have heleven : pat.length = 11 := by rcases hpat with rfl | rfl <;> rfl
        have hle := add_length_le_of_prefix_drop (by rintro rfl; cases heleven) hat
        rw [htail.1, length_drop] at hle
        omega
      dsimp only
      rw [skipBytes_of_ascii h hpos]
      dsimp only
      split
      · exact returns_some trivial
      · next offset hclose =>
        have hlt := closeOffset_lt (h.drop _) hclose
        rw [length_drop] at hlt
        rw [sliceBytes_of_ascii h (by omega) (by omega), Option.bind_some]
        split
        · exact ih (by omega)
        · refine (returns_dropBytes h (by omega)).bind fun rest hrest => ?_
          refine (returns_callAlias hu hrest.2).bind fun aliased haliased => ?_
          have hposition : Returns (selectPosition (sql.toList.map Char.toLower) (p + searchFrom))
              fun _ => True := by
            rw [selectPosition]
            split
            · exact returns_some trivial
            · next sp hsp =>
              have hle := hfirst.le_of_nextCall h hsp (htail.1 ▸ hnext)
              rw [sliceBytes_of_ascii hlow hle (by omega)]
              exact returns_some trivial
          refine hposition.bind fun position _ => ?_
          refine (ih ?_).map fun _ _ => trivial
          rw [hrest.1, length_drop] at haliased
          omega

/-! ## All scanners -/

/-- No scanner panics on the text. -/
structure PanicFree (H : Host) (sql : String) : Prop where
  parseWith : parseWith H sql ≠ some .panic
  parseCreateView : parseCreateView H sql ≠ some .panic
  parseDropView : parseDropView H sql ≠ some .panic
  splitUnionAll : splitUnionAll H sql ≠ none
  parsePivotClause : parsePivotClause H sql ≠ none
  stripPivotClause : stripPivotClause H sql ≠ none
  parseForSystemTime : parseForSystemTime H sql ≠ none
  extractJsonValueCalls : extractJsonValueCalls H sql ≠ none

/-- A scanner that cuts the text as if it were ASCII has found its words in it: WITH or a statement
about a view at the start, or an AS OF clause, PIVOT or a JSON call somewhere. -/
def Cuts (H : Host) (sql : String) : Prop :=
  (parseWith H sql).isSome ∨ (parseCreateView H sql).isSome ∨ (parseDropView H sql).isSome ∨
    findBytes "for system_time as of".toList (lower H sql.toList) ≠ none ∨
    findBytes "pivot ".toList (lower H sql.toList) ≠ none ∨ nextCall (lower H sql.toList) ≠ none

instance (H : Host) (sql : String) : Decidable (Cuts H sql) :=
  inferInstanceAs (Decidable (_ ∨ _))

end TensorVault.Scan
