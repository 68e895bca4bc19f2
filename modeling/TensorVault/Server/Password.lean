import TensorVault.Server.Client
import TensorVault.Server.Shared

/-!
# From CREATE USER to the credential

A password in a CREATE USER statement passes through `split_sql_batch` and `extract_string_literal`,
which both take the bytes of the text one by one as characters. `faithful_iff` says for which names
and passwords an honest client can use what was created.
-/

namespace TensorVault.Server

variable {cs : List Char} {c : Char} {username : String}

open Text Proc List

/-! ## Bytes as characters -/

/-- What becomes of a text if its bytes are taken for characters. -/
def latin1 (cs : List Char) : List Char := (Utf8.encode cs).map byteChar

theorem byteChar_quote : byteChar quote = '\'' := rfl

theorem latin1_append (cs ds : List Char) : latin1 (cs ++ ds) = latin1 cs ++ latin1 ds := by
  rw [latin1, Utf8.encode_append, map_append]
  rfl

theorem toNat_lt_of_mem_latin1 (h : c ∈ latin1 cs) : c.toNat < 256 := by
  obtain ⟨b, -, rfl⟩ := mem_map.mp h
  rw [toNat_byteChar]
  exact b.toNat_lt

theorem length_le_length_latin1 (cs : List Char) : cs.length ≤ (latin1 cs).length := by
  rw [latin1, length_map]
  exact Utf8.length_le_length_encode cs

theorem latin1_ascii (h : ∀ c ∈ cs, c.toNat < 0x80) : latin1 cs = cs := by
  rw [latin1, Utf8.encode_ascii h, map_map]
  exact (map_congr_left fun c hc => byteChar_ascii (h c hc)).trans (map_id cs)

/-- Only ASCII survives. -/
theorem ascii_of_length_latin1 (h : (latin1 cs).length = cs.length) : ∀ c ∈ cs, c.toNat < 0x80 := by
  rw [latin1, length_map] at h
  exact Utf8.length_encode_eq_iff.mp h

theorem latin1_latin1_eq_self_iff : latin1 (latin1 cs) = cs ↔ ∀ c ∈ cs, c.toNat < 0x80 := by
  constructor
  · intro h
    have h1 := length_le_length_latin1 cs
    have h2 := length_le_length_latin1 (latin1 cs)
    rw [h] at h2
    exact ascii_of_length_latin1 (by omega)
  · intro h
    rw [latin1_ascii h, latin1_ascii h]

/-! ## Doubled quotes -/

section

variable {α β : Type} [DecidableEq α] [DecidableEq β] {q : α} {xs : List α} {x : α}

/-- A text with every `q` written twice. -/
def doubled (q : α) (xs : List α) : List α := xs.flatMap fun x => if x = q then [q, q] else [x]

theorem doubled_cons_self : doubled q (q :: xs) = q :: q :: doubled q xs := by
  simp [doubled]

theorem doubled_cons_of_ne (h : x ≠ q) : doubled q (x :: xs) = x :: doubled q xs := by
  simp [doubled, h]

theorem doubled_append {ys : List α} :
    doubled q (xs ++ ys) = doubled q xs ++ doubled q ys := flatMap_append

variable {xs : List α}

theorem doubled_of_not_mem (h : q ∉ xs) : doubled q xs = xs := by
  induction xs with
  | nil => rfl
  | cons x xs ih =>
    rw [mem_cons, not_or] at h
    rw [doubled_cons_of_ne (Ne.symm h.1), ih h.2]

theorem mem_of_mem_doubled (h : x ∈ doubled q xs) : x ∈ xs := by
  obtain ⟨y, hy, hmem⟩ := mem_flatMap.mp h
  split_ifs at hmem with hq
  · simp only [mem_cons, not_mem_nil, or_false, or_self] at hmem
    rwa [hmem, ← hq]
  · rwa [mem_singleton.mp hmem]

theorem map_doubled {f : α → β} (hf : Function.Injective f) :
    (doubled q xs).map f = doubled (f q) (xs.map f) := by
  induction xs with
  | nil => rfl
  | cons x xs ih =>
    by_cases hx : x = q
    · rw [hx, doubled_cons_self, map_cons, map_cons, map_cons, doubled_cons_self, ih]
    · rw [doubled_cons_of_ne hx, map_cons, map_cons, doubled_cons_of_ne fun h => hx (hf h), ih]

end

theorem quote_not_mem_encodeChar (h : c ≠ '\'') : quote ∉ String.utf8EncodeChar c := by
  intro hmem
  have hnat := Utf8.toNat_eq_of_mem_encodeChar hmem (by decide)
  exact h (Char.toNat_inj.mp hnat)

/-- A quote is a byte of its own in UTF-8. -/
theorem encode_doubled : Utf8.encode (doubled '\'' cs) = doubled quote (Utf8.encode cs) := by
  induction cs with
  | nil => rfl
  | cons c cs ih =>
    by_cases hc : c = '\''
    · rw [hc, doubled_cons_self, Utf8.encode_cons, Utf8.encode_cons, Utf8.encode_cons, ih,
        show String.utf8EncodeChar '\'' = [quote] from rfl, singleton_append,
        singleton_append, singleton_append, doubled_cons_self]
    · rw [doubled_cons_of_ne hc, Utf8.encode_cons, Utf8.encode_cons, ih, doubled_append,
        doubled_of_not_mem (quote_not_mem_encodeChar hc)]

variable {b : UInt8} {rest bs : List UInt8} {prev : Option UInt8} {fuel : Nat} {password : String}

theorem literalLoop_cons_of_ne (h : b ≠ quote) :
    literalLoop (b :: rest) = (literalLoop rest).map (byteChar b :: ·) := by
  cases rest <;> simp [literalLoop, h]

/-- The literal decoder on a literal: its quotes are right, its characters are bytes. -/
theorem literalLoop_doubled :
    literalLoop (doubled quote bs ++ [quote]) = some (bs.map byteChar) := by
  induction bs with
  | nil => rfl
  | cons b bs ih =>
    by_cases hb : b = quote
    · rw [hb, doubled_cons_self]
      simp [literalLoop, ih, byteChar_quote]
    · rw [doubled_cons_of_ne hb, cons_append, literalLoop_cons_of_ne hb, ih]
      rfl

theorem extractStringLiteral_doubled (cs : List Char) :
    extractStringLiteral ('\'' :: (doubled '\'' cs ++ ['\''])) = some (latin1 cs) := by
  have hencode : Utf8.encode (trimStart ('\'' :: (doubled '\'' cs ++ ['\'']))) =
      quote :: (doubled quote (Utf8.encode cs) ++ [quote]) := by
    rw [trimStart, dropWhile_cons_of_neg (by decide), Utf8.encode_cons, Utf8.encode_append,
      encode_doubled]
    rfl
  rw [extractStringLiteral, hencode]
  exact literalLoop_doubled

/-! ## The batch splitter -/

theorem goSeparator_eq_none {c : UInt8}
    (h : ¬ ((c = 0x47 ∨ c = 0x67) ∧ (prev = none ∨ prev = some 0x0A ∨ prev = some 0x0D))) :
    goSeparator prev c rest = none := by
  unfold goSeparator
  split
  · exact if_neg fun hgo => h ⟨hgo.1, hgo.2.2⟩
  · rfl

/-- A byte that ends no statement and begins no literal. -/
abbrev Inert (b : UInt8) : Prop := b ≠ quote ∧ b ≠ 0x3B ∧ b ≠ 0x0A ∧ b ≠ 0x0D

/-- Outside literals the splitter copies what is inert. -/
theorem splitLoop_inert (h : ∀ b ∈ bs, Inert b) (rest : List UInt8) {prev : UInt8}
    (hprev : Inert prev) (current : List Char) (hfuel : bs.length + 1 + rest.length ≤ fuel) :
    ∃ fuel', rest.length ≤ fuel' ∧
      splitLoop fuel (some prev) false current (bs ++ quote :: rest) =
        splitLoop fuel' (some quote) true (current ++ bs.map byteChar ++ ['\'']) rest := by
  induction bs generalizing fuel prev current with
  | nil =>
    obtain ⟨n, rfl⟩ : ∃ n, fuel = n + 1 := ⟨fuel - 1, by simp at hfuel; omega⟩
    refine ⟨n, by simp at hfuel; omega, ?_⟩
    rw [nil_append, splitLoop, if_pos rfl, map_nil, append_nil]
  | cons b bs ih =>
    obtain ⟨hb, hbs⟩ := forall_mem_cons.mp h
    rw [length_cons] at hfuel
    obtain ⟨n, rfl⟩ : ∃ n, fuel = n + 1 := ⟨fuel - 1, by omega⟩
    obtain ⟨fuel', hle, heq⟩ := ih hbs hb (current ++ [byteChar b]) (show _ ≤ n by omega)
    have hgo : goSeparator (some prev) b (bs ++ quote :: rest) = none :=
      goSeparator_eq_none fun hgo => by
        rcases hgo.2 with h0 | h0 | h0
        · cases h0
        · exact hprev.2.2.1 (Option.some.inj h0)
        · exact hprev.2.2.2 (Option.some.inj h0)
    refine ⟨fuel', hle, ?_⟩
    rw [cons_append, splitLoop, if_neg hb.1, hgo]
    simp only [if_neg hb.2.1]
    rw [heq, map_cons, append_assoc current, singleton_append]

theorem splitLoop_literal_cons_of_ne (h : b ≠ quote) {current : List Char} :
    splitLoop (fuel + 1) prev true current (b :: rest) =
      splitLoop fuel (some b) true (current ++ [byteChar b]) rest := by
  cases rest <;> simp [splitLoop, h]

/-- Inside a literal the splitter copies everything up to the quote that ends it. -/
theorem splitLoop_literal (bs : List UInt8) (prev : Option UInt8)
    (current : List Char) (hfuel : (doubled quote bs).length + 1 ≤ fuel) :
    splitLoop fuel prev true current (doubled quote bs ++ [quote]) =
      (flushStatement (current ++ (doubled quote bs).map byteChar ++ ['\''])).1 := by
  induction bs generalizing fuel prev current with
  | nil =>
    obtain ⟨n, rfl⟩ : ∃ n, fuel = n + 1 := ⟨fuel - 1, by omega⟩
    cases n <;> simp [doubled, splitLoop, byteChar_quote]
  | cons b bs ih =>
    obtain ⟨n, rfl⟩ : ∃ n, fuel = n + 1 := ⟨fuel - 1, by omega⟩
    by_cases hb : b = quote
    · rw [hb, doubled_cons_self] at hfuel ⊢
      rw [length_cons, length_cons] at hfuel
      have hstep := ih (some quote) (current ++ ['\'', '\'']) (show _ ≤ n by omega)
      simp [splitLoop, hstep, byteChar_quote]
    · rw [doubled_cons_of_ne hb] at hfuel ⊢
      rw [length_cons] at hfuel
      rw [cons_append, splitLoop_literal_cons_of_ne hb, ih _ _ (by omega)]
      simp

/-! ## The statement -/

/-- CREATE USER with a password, its quotes doubled. -/
def createUserText (username password : String) : String :=
  "CREATE USER " ++ username ++ " PASSWORD '" ++ String.ofList (doubled '\'' password.toList) ++ "'"

theorem toList_createUserText (username password : String) :
    (createUserText username password).toList = "CREATE USER ".toList ++ username.toList ++
      " PASSWORD ".toList ++ '\'' :: (doubled '\'' password.toList ++ ['\'']) := by
  simp [createUserText]

theorem trimChars_createUserText :
    trimChars (createUserText username password).toList =
      (createUserText username password).toList := by
  have hlist : (createUserText username password).toList =
      'C' :: (("REATE USER ".toList ++ username.toList ++ " PASSWORD '".toList ++
        doubled '\'' password.toList) ++ ['\'']) := by
    simp [toList_createUserText]
  rw [hlist]
  exact trimChars_eq_self rfl rfl

/-- A user name that is one word for the splitter and for `split_username`, byte by byte. -/
structure Word (username : String) : Prop where
  head : ∃ b bs, bytesOf username = b :: bs ∧ b ≠ 0x22
  separate : ∀ b ∈ bytesOf username, b ≠ quote ∧ b ≠ 0x3B ∧ isWhitespace (byteChar b) = false

theorem Word.inert (h : Word username) : ∀ b ∈ bytesOf username, Inert b := by
  intro b hb
  obtain ⟨hquote, hsemicolon, hvisible⟩ := h.separate b hb
  refine ⟨hquote, hsemicolon, ?_, ?_⟩
  all_goals
    rintro rfl
    cases hvisible

theorem bytesOf_createUserText :
    bytesOf (createUserText username password) =
      0x43 :: ((bytesOf "REATE USER " ++ bytesOf username ++ bytesOf " PASSWORD ") ++
        quote :: (doubled quote (bytesOf password) ++ [quote])) := by
  unfold bytesOf
  rw [toList_createUserText, Utf8.encode_append, Utf8.encode_append, Utf8.encode_append,
    Utf8.encode_cons, Utf8.encode_append, encode_doubled]
  rfl

/-- The splitter gives out one statement, with its bytes as characters. -/
theorem splitSqlBatch_createUserText (h : Word username) :
    splitSqlBatch (createUserText username password) =
      [createUserText (String.ofList (latin1 username.toList))
        (String.ofList (latin1 password.toList))] := by
  have hcreate : ∀ b ∈ bytesOf "REATE USER ", Inert b := by decide
  have hpassword : ∀ b ∈ bytesOf " PASSWORD ", Inert b := by decide
  have hinert : ∀ b ∈ bytesOf "REATE USER " ++ bytesOf username ++ bytesOf " PASSWORD ",
      Inert b := by
    intro b hb
    rcases mem_append.mp hb with hb | hb
    · rcases mem_append.mp hb with hb | hb
      · exact hcreate b hb
      · exact h.inert b hb
    · exact hpassword b hb
  have htext : [byteChar 0x43] ++ (bytesOf "REATE USER " ++ bytesOf username ++
      bytesOf " PASSWORD ").map byteChar ++ ['\''] ++
      (doubled quote (bytesOf password)).map byteChar ++ ['\''] =
      (createUserText (String.ofList (latin1 username.toList))
        (String.ofList (latin1 password.toList))).toList := by
    have hfirst : (bytesOf "REATE USER ").map byteChar = "REATE USER ".toList := rfl
    have hsecond : (bytesOf " PASSWORD ").map byteChar = " PASSWORD ".toList := rfl
    rw [toList_createUserText, map_doubled byteChar_injective, map_append, map_append,
      hfirst, hsecond]
    simp [latin1, bytesOf, byteChar_quote, show byteChar 67 = 'C' from rfl]
  unfold splitSqlBatch
  rw [bytesOf_createUserText, length_cons, splitLoop, if_neg (by decide),
    goSeparator_eq_none (by decide)]
  simp only [if_neg (show ¬ (0x43 : UInt8) = 0x3B by decide)]
  rw [length_append, length_cons, ← Nat.add_assoc, Nat.add_right_comm]
  obtain ⟨fuel, hle, heq⟩ := splitLoop_inert hinert (doubled quote (bytesOf password) ++ [quote])
    (show Inert 0x43 by decide) ([] ++ [byteChar 0x43]) (Nat.le_refl _)
  rw [heq, splitLoop_literal _ _ _ (by simpa using hle), nil_append, htext, flushStatement,
    trimChars_createUserText, if_neg (by simp [toList_createUserText]), String.ofList_toList]

/-! ## The user -/

/-- A user name that is one word for `split_username`. -/
structure SqlWord (cs : List Char) : Prop where
  head : ∃ c rest, cs = c :: rest ∧ c ≠ '"'
  visible : ∀ c ∈ cs, isWhitespace c = false

theorem trimStart_space : trimStart (' ' :: cs) = trimStart cs := by
  rfl

variable {rest : List Char} {H : Host} {pre : List Char}

theorem splitUsername_word (h : SqlWord cs) :
    splitUsername (trimStart (' ' :: (cs ++ ' ' :: rest))) = some (cs, ' ' :: rest) := by
  obtain ⟨⟨c, cs, rfl, hc⟩, hvisible⟩ := h
  have hhead : isWhitespace c = false := hvisible c mem_cons_self
  have htrim : trimStart (c :: cs ++ ' ' :: rest) = c :: cs ++ ' ' :: rest := by
    rw [trimStart, cons_append, dropWhile_cons_of_neg (by simp [hhead])]
  have hall : ∀ x ∈ c :: cs, (!isWhitespace x) = true := fun x hx => by simp [hvisible x hx]
  unfold splitUsername
  rw [trimStart_space, htrim, htrim]
  split
  · next heq => cases heq
  · next heq =>
    exact absurd (List.cons.inj heq).1 hc
  · next heq =>
    rw [← heq, takeWhile_append_of_pos hall, dropWhile_append_of_pos hall]
    simp [show isWhitespace ' ' = true from rfl]

/-- The ASCII beginning of a text is lowercased like a text of its own. -/
theorem toLowercase_append (hlower : H.LowersLatin1) (pre : List Char)
    (hpre : ∀ c ∈ pre, c.toNat < 128) (hrest : ∀ c ∈ rest, c.toNat < 256) :
    ∃ rest', (H.toLowercase (String.ofList (pre ++ rest))).toList =
      pre.map Char.toLower ++ rest' := by
  obtain ⟨f, hascii, hf⟩ := hlower
  refine ⟨rest.map f, ?_⟩
  have hlatin : ∀ c ∈ pre ++ rest, c.toNat < 256 := by
    intro c hc
    rcases mem_append.mp hc with hc | hc
    · exact Nat.lt_trans (hpre c hc) (by decide)
    · exact hrest c hc
  rw [hf _ (by rwa [String.toList_ofList]), String.toList_ofList, String.toList_ofList,
    map_append, map_congr_left fun c hc => hascii c (hpre c hc)]

theorem toNat_lt_of_mem_literal {password : List Char} (h : ∀ c ∈ password, c.toNat < 256) :
    ∀ c ∈ '\'' :: (doubled '\'' password ++ ['\'']), c.toNat < 256 := by
  intro c hc
  simp only [mem_cons, mem_append, not_mem_nil, or_false] at hc
  rcases hc with rfl | hc | rfl
  · decide
  · exact h c (mem_of_mem_doubled hc)
  · decide

/-- **CREATE USER** takes the name as it stands in the statement, and the bytes of the literal as
the characters of the password. -/
theorem parseCreateUser_createUserText (hlower : H.LowersLatin1)
    (hword : SqlWord username.toList) (hpassword : ∀ c ∈ password.toList, c.toNat < 256) :
    parseCreateUser H (createUserText username password) =
      .create username (String.ofList (latin1 password.toList)) := by
  have hlatin := toNat_lt_of_mem_literal hpassword
  have hextract : extractStringLiteral (trimStart (' ' :: '\'' ::
      (doubled '\'' password.toList ++ ['\'']))) = some (latin1 password.toList) :=
    extractStringLiteral_doubled password.toList
  have hlist := toList_createUserText username password
  generalize '\'' :: (doubled '\'' password.toList ++ ['\'']) = literal at hlatin hextract hlist
  have hdrop : dropBytes 11 (createUserText username password).toList =
      some (' ' :: (username.toList ++ ' ' :: ("PASSWORD ".toList ++ literal))) := by
    rw [hlist, append_assoc, append_assoc]
    rfl
  have hfind : findBytes "password".toList
      (H.toLowercase (String.ofList (' ' :: ("PASSWORD ".toList ++ literal)))).toList = some 1 := by
    obtain ⟨rest, hrest⟩ := toLowercase_append hlower " PASSWORD ".toList (by decide) hlatin
    rw [show ' ' :: ("PASSWORD ".toList ++ literal) =
      " PASSWORD ".toList ++ literal from rfl, hrest]
    rfl
  have hvalue : dropBytes (1 + 8) (' ' :: ("PASSWORD ".toList ++ literal)) =
      some (' ' :: literal) := rfl
  unfold parseCreateUser
  simp only [hdrop, splitUsername_word hword, hfind, hvalue, hextract, String.ofList_toList]

theorem startsWith_createUserText (hlower : H.LowersLatin1)
    (husername : ∀ c ∈ username.toList, c.toNat < 256)
    (hpassword : ∀ c ∈ password.toList, c.toNat < 256) :
    ∃ rest, (H.toLowercase (createUserText username password)).toList =
      "create user ".toList ++ rest := by
  have hrest : ∀ c ∈ username.toList ++ (" PASSWORD ".toList ++
      '\'' :: (doubled '\'' password.toList ++ ['\''])), c.toNat < 256 := by
    have hlit : ∀ c ∈ " PASSWORD ".toList, c.toNat < 256 := by decide
    intro c hc
    rcases mem_append.mp hc with hc | hc
    · exact husername c hc
    rcases mem_append.mp hc with hc | hc
    · exact hlit c hc
    · exact toNat_lt_of_mem_literal hpassword c hc
  obtain ⟨rest, h⟩ := toLowercase_append hlower "CREATE USER ".toList (by decide) hrest
  refine ⟨rest, ?_⟩
  rw [← append_assoc, ← append_assoc, ← toList_createUserText, String.ofList_toList] at h
  exact h

theorem trim_createUserText :
    trim (createUserText username password) = createUserText username password := by
  rw [trim, trimChars_createUserText, String.ofList_toList]

theorem Word.sqlWord (h : Word username) : SqlWord (latin1 username.toList) where
  head := by
    obtain ⟨b, bs, hbytes, hb⟩ := h.head
    refine ⟨byteChar b, bs.map byteChar, ?_, fun heq => hb (byteChar_injective heq)⟩
    rw [latin1, show Utf8.encode username.toList = b :: bs from hbytes, map_cons]
  visible := by
    intro c hc
    obtain ⟨b, hb, rfl⟩ := mem_map.mp hc
    exact (h.separate b hb).2.2

section Handler

variable {σ δ : Type} (S : Services σ δ)

/-- **CREATE USER over a simple query** creates a user whose name is the Latin-1 reading of the
one in the query, with a password that was read so twice. -/
theorem wp_handleSimpleQuery_createUserText (hlower : S.host.LowersLatin1)
    (hword : Word username) {w : World σ} :
    wp (handleSimpleQuery S (createUserText username password))
      (fun _ w' => w'.shared = S.createUser w.shared (String.ofList (latin1 username.toList))
        (String.ofList (latin1 (latin1 password.toList))))
      (fun _ _ => False) w := by
  have husername : ∀ c ∈ (String.ofList (latin1 username.toList)).toList, c.toNat < 256 := by
    rw [String.toList_ofList]
    exact fun c => toNat_lt_of_mem_latin1
  have hpassword : ∀ c ∈ (String.ofList (latin1 password.toList)).toList, c.toNat < 256 := by
    rw [String.toList_ofList]
    exact fun c => toNat_lt_of_mem_latin1
  have hparse := parseCreateUser_createUserText hlower
    (by rw [String.toList_ofList]; exact hword.sqlWord) hpassword
  obtain ⟨rest, hrest⟩ := startsWith_createUserText hlower husername hpassword
  unfold handleSimpleQuery
  simp only [wp_bind, wp_get, splitSqlBatch_createUserText hword]
  generalize htext : createUserText (String.ofList (latin1 username.toList))
    (String.ofList (latin1 password.toList)) = text at *
  have htrim : trim text = text := htext ▸ trim_createUserText
  have hne : text ≠ "" := by
    rw [← htext, ← String.toList_inj.ne, toList_createUserText]
    simp
  have hddl : userDdl S.host text = some (.create (String.ofList (latin1 username.toList))
      (String.ofList (latin1 (latin1 password.toList)))) := by
    rw [String.toList_ofList] at hparse
    unfold userDdl startsWith
    simp only [htrim, hrest, hparse]
    rfl
  have hcontrol : ∀ kind ∈ ["begin", "start transaction", "commit", "rollback"],
      startsWith (S.host.toLowercase text) kind = false := by
    unfold startsWith
    simp only [hrest, forall_mem_cons]
    exact ⟨rfl, rfl, rfl, rfl, by simp⟩
  simp only [forall_mem_cons] at hcontrol
  obtain ⟨hbegin, hstart, hcommit, hrollback, -⟩ := hcontrol
  unfold runStatements tryHandleUserDdl
  simp only [htrim, if_neg hne, hbegin, hstart, hcommit, hrollback, hddl, Bool.or_self,
    Bool.false_eq_true, if_false, wp_bind, wp_call, record, wp_modify, wp_pure, wp_send,
    runStatements, sendReadyForQuery, wp_get]

end Handler

/-! ## Names -/

/-- The characters of a name that reach the server as they are. -/
def Unescaped (c : Char) : Prop := c.toNat < 0x80 ∧ c ≠ ',' ∧ c ≠ '='

instance (c : Char) : Decidable (Unescaped c) := by
  unfold Unescaped
  infer_instance

theorem Unescaped.saslEscape (h : Unescaped c) : saslEscape c = [c] := by
  rw [Server.saslEscape, if_neg h.2.1, if_neg h.2.2]

theorem Unescaped.latin1 (h : Unescaped c) : latin1 [c] = [c] :=
  latin1_ascii fun d hd => by rw [mem_singleton.mp hd]; exact h.1

theorem latin1_cons : latin1 (c :: cs) = latin1 [c] ++ latin1 cs :=
  latin1_append [c] cs

theorem latin1_singleton : latin1 [c] = (String.utf8EncodeChar c).map byteChar := by
  rw [latin1, Utf8.encode_cons]
  simp [Utf8.encode]

/-- A character that is not ASCII becomes several, and none of them is. -/
theorem latin1_high (h : ¬ c.toNat < 0x80) :
    ∃ d ds, latin1 [c] = d :: ds ∧ ds ≠ [] ∧ ∀ x ∈ d :: ds, 0x80 ≤ x.toNat := by
  obtain ⟨b, bs, hbytes⟩ := Utf8.exists_encodeChar c
  refine ⟨byteChar b, bs.map byteChar, by rw [latin1_singleton, hbytes, map_cons], ?_, ?_⟩
  · intro hnil
    rw [map_eq_nil_iff] at hnil
    exact h ((Utf8.length_encodeChar_eq_one_iff c).mp (by rw [hbytes, hnil]; rfl))
  · intro x hx
    rw [← map_cons, ← hbytes] at hx
    obtain ⟨y, hy, rfl⟩ := mem_map.mp hx
    rw [toNat_byteChar]
    by_contra hlow
    have hnat := Utf8.toNat_eq_of_mem_encodeChar hy (by omega)
    omega

/-- The first character of a Latin-1 reading, if it is ASCII. -/
theorem latin1_head_ascii {d : Char} {ds : List Char} (hd : d.toNat < 0x80)
    (h : latin1 (c :: cs) = d :: ds) : c = d ∧ latin1 cs = ds := by
  rw [latin1_cons] at h
  by_cases hc : c.toNat < 0x80
  · rw [latin1_ascii (by simpa using hc), singleton_append] at h
    exact List.cons.inj h
  · obtain ⟨x, xs, hlatin, -, hhigh⟩ := latin1_high hc
    rw [hlatin, cons_append] at h
    have hx := hhigh x mem_cons_self
    rw [(List.cons.inj h).1] at hx
    omega

-- The two readings of a name grow apart: what one has ahead of the other is passed on along the
-- rest of the name and never used up.

theorem flatMap_saslEscape_ne (hpre : pre ≠ [])
    (hhigh : ∀ x ∈ pre, 0x80 ≤ x.toNat) : cs.flatMap saslEscape ≠ pre ++ latin1 cs := by
  induction cs generalizing pre with
  | nil =>
    intro heq
    exact hpre (append_eq_nil_iff.mp heq.symm).1
  | cons c cs ih =>
    obtain ⟨x, pre, rfl⟩ := exists_cons_of_ne_nil hpre
    have hx := hhigh x mem_cons_self
    intro heq
    rw [flatMap_cons, cons_append, latin1_cons] at heq
    unfold saslEscape at heq
    split_ifs at heq with hcomma hequals
    · rw [← (List.cons.inj heq).1] at hx
      exact absurd hx (by decide)
    · rw [← (List.cons.inj heq).1] at hx
      exact absurd hx (by decide)
    · obtain ⟨rfl, hrest⟩ := List.cons.inj heq
      obtain ⟨d, ds, hlatin, -, hlatin_high⟩ := latin1_high (show ¬ c.toNat < 0x80 by omega)
      rw [← append_assoc] at hrest
      refine ih (by simp [hlatin]) (fun y hy => ?_) hrest
      rcases mem_append.mp hy with hy | hy
      · exact hhigh y (mem_cons_of_mem _ hy)
      · exact hlatin_high y (hlatin ▸ hy)

theorem latin1_ne (hpre : pre ≠ []) (hplain : ∀ x ∈ pre, Unescaped x) :
    latin1 cs ≠ pre ++ cs.flatMap saslEscape := by
  induction cs generalizing pre with
  | nil =>
    intro heq
    exact hpre (append_eq_nil_iff.mp heq.symm).1
  | cons c cs ih =>
    obtain ⟨x, pre, rfl⟩ := exists_cons_of_ne_nil hpre
    have hx := hplain x mem_cons_self
    intro heq
    rw [cons_append] at heq
    obtain ⟨rfl, hrest⟩ := latin1_head_ascii hx.1 heq
    rw [flatMap_cons, hx.saslEscape, ← append_assoc] at hrest
    refine ih (by simp) (fun y hy => ?_) hrest
    rcases mem_append.mp hy with hy | hy
    · exact hplain y (mem_cons_of_mem _ hy)
    · rwa [mem_singleton.mp hy]

/-- A client asks for the name that was created only if neither was changed. -/
theorem saslName_eq_latin1_iff :
    saslName username = String.ofList (latin1 username.toList) ↔
      ∀ c ∈ username.toList, Unescaped c := by
  rw [saslName, String.ofList_inj]
  generalize username.toList = cs
  induction cs with
  | nil => simp [latin1, Utf8.encode]
  | cons c cs ih =>
    rw [forall_mem_cons, ← ih, flatMap_cons, latin1_cons]
    constructor
    · intro heq
      by_cases hascii : c.toNat < 0x80
      · rw [latin1_ascii (show ∀ d ∈ [c], d.toNat < 0x80 by simpa using hascii)] at heq
        unfold saslEscape at heq
        split_ifs at heq with hcomma hequals
        · rw [hcomma] at heq
          exact absurd (List.cons.inj heq).1 (by decide)
        · have hplain : ∀ x ∈ ['3', 'D'], Unescaped x := by decide
          exact absurd (List.cons.inj heq).2.symm (latin1_ne (by simp) hplain)
        · exact ⟨⟨hascii, hcomma, hequals⟩, (List.cons.inj heq).2⟩
      · obtain ⟨d, ds, hlatin, hds, hhigh⟩ := latin1_high hascii
        rw [saslEscape, if_neg (by rintro rfl; exact hascii (by decide)),
          if_neg (by rintro rfl; exact hascii (by decide)), hlatin] at heq
        refine absurd (List.cons.inj heq).2 (flatMap_saslEscape_ne hds fun x hx => ?_)
        exact hhigh x (mem_cons_of_mem _ hx)
    · rintro ⟨hc, heq⟩
      rw [hc.saslEscape, hc.latin1, heq]

/-! ## Logging in -/

theorem exists_world {σ : Type} (shared : σ) : ∃ w : World σ, w.shared = shared :=
  ⟨.start shared [], rfl⟩

theorem exists_client : ∃ c : Client, c.username = username ∧ c.password = password :=
  ⟨{ username, password, nonce := "", comma_not_mem := by simp }, rfl, rfl⟩

section Login

variable {ε δ : Type} (C : ServerConfig ε δ) {a : World (Shared ε δ)}

theorem shared_createUserText (hlower : C.host.LowersLatin1) (hword : Word username) :
    (handleSimpleQuery C.services (createUserText username password) a).2.shared =
      C.createUser a.shared (String.ofList (latin1 username.toList))
        (String.ofList (latin1 (latin1 password.toList))) :=
  wp_state.mp (wp_mono (wp_handleSimpleQuery_createUserText C.services hlower hword)
    (fun _ _ h => h) fun _ _ h => h.elim)

variable [DecidableEq δ]

/-- Whoever is created with a password is accepted with it on another connection, and with no
other password. -/
def Faithful (username password : String) : Prop :=
  ∀ a b : World (Shared ε δ),
    b.shared = (handleSimpleQuery C.services (createUserText username password) a).2.shared →
    ∀ c : Client, c.username = username →
      ((c.login C.services b).1 = .ok () ↔ c.password = password)

variable {C} {username password : String}

/-- A client with a plain name is accepted with the password as it was stored. -/
theorem login_createUserText (hideal : C.primitives.Ideal) (hlower : C.host.LowersLatin1)
    (hword : Word username) (hname : ∀ ch ∈ username.toList, Unescaped ch) {b : World (Shared ε δ)}
    (hb : b.shared = (handleSimpleQuery C.services (createUserText username password) a).2.shared)
    {c : Client} (hc : c.username = username) :
    (c.login C.services b).1 = .ok () ↔
      c.password = String.ofList (latin1 (latin1 password.toList)) := by
  have huser := C.getUser_createUser a.shared (String.ofList (latin1 username.toList))
    (String.ofList (latin1 (latin1 password.toList)))
  rw [← shared_createUserText C hlower hword, ← hb, ← saslName_eq_latin1_iff.mpr hname,
    ← hc] at huser
  exact Client.login_iff C.services hideal huser

/-- The password that was meant is the one that was stored. -/
theorem latin1_eq_of_faithful [Nonempty ε] (hideal : C.primitives.Ideal)
    (hlower : C.host.LowersLatin1) (hword : Word username)
    (hname : ∀ c ∈ username.toList, Unescaped c) (h : Faithful C username password) :
    latin1 (latin1 password.toList) = password.toList := by
  obtain ⟨engine⟩ := ‹Nonempty ε›
  obtain ⟨a, -⟩ := exists_world (σ := Shared ε δ) { engine, passwords := .new, drawn := 0 }
  obtain ⟨b, hb⟩ := exists_world
    (handleSimpleQuery C.services (createUserText username password) a).2.shared
  obtain ⟨c, hc, hpassword⟩ := exists_client
  have haccepted := (h a b hb c hc).mpr hpassword
  rw [login_createUserText hideal hlower hword hname hb hc, hpassword] at haccepted
  have hchars := congrArg String.toList haccepted
  rwa [String.toList_ofList, eq_comm] at hchars

/-- The name under which a client asks is the one that was created. -/
theorem unescaped_of_faithful [Nonempty ε] (hlower : C.host.LowersLatin1) (hword : Word username)
    (h : Faithful C username password) : ∀ c ∈ username.toList, Unescaped c := by
  obtain ⟨engine⟩ := ‹Nonempty ε›
  -- on a server without users nobody else has the name the client asks for
  obtain ⟨a, ha⟩ := exists_world (σ := Shared ε δ) { engine, passwords := .new, drawn := 0 }
  obtain ⟨b, hb⟩ := exists_world
    (handleSimpleQuery C.services (createUserText username password) a).2.shared
  obtain ⟨c, hc, hpassword⟩ := exists_client
  have haccepted := (h a b hb c hc).mpr hpassword
  rw [← saslName_eq_latin1_iff]
  by_contra hne
  have huser := C.getUser_createUser_of_ne a.shared hne
    (String.ofList (latin1 (latin1 password.toList)))
  rw [← shared_createUserText C hlower hword, ← hb, ← hc, ha] at huser
  exact Client.login_unknown C.services huser haccepted

/-- **Passwords are kept** exactly if name and password are ASCII and the name has no character
that a client escapes. -/
theorem faithful_iff [Nonempty ε] (hideal : C.primitives.Ideal) (hlower : C.host.LowersLatin1)
    (hword : Word username) : Faithful C username password ↔
      (∀ c ∈ username.toList, Unescaped c) ∧ ∀ c ∈ password.toList, c.toNat < 0x80 := by
  constructor
  · intro h
    have hname := unescaped_of_faithful hlower hword h
    exact ⟨hname, latin1_latin1_eq_self_iff.mp (latin1_eq_of_faithful hideal hlower hword hname h)⟩
  · rintro ⟨hname, hpassword⟩ a b hb c hc
    rw [login_createUserText hideal hlower hword hname hb hc,
      latin1_latin1_eq_self_iff.mpr hpassword, String.ofList_toList]

end Login

/-! ## Two users -/

theorem lowersLatin1_ascii : Host.ascii.LowersLatin1 :=
  ⟨Char.toLower, fun _ _ => rfl, fun _ _ => rfl⟩

/-- A server with an engine that answers everything with an empty result. -/
def ServerConfig.bare : ServerConfig Unit (Finset Nat) where
  host := .ascii
  authRequired := true
  overflowChecks := false
  primitives := Scram.free
  tryReadonlySelect _ _ := some (.ok .empty)
  execute _ _ := some ((), .ok .empty)
  randomSalt n := List.replicate 16 (UInt8.ofNat n)
  randomServerNonce _ := .letters

theorem word_alice : Word "alice" where
  head := ⟨0x61, [0x6C, 0x69, 0x63, 0x65], rfl, by decide⟩
  separate := by decide

theorem alice_faithful : Faithful .bare "alice" "it's" :=
  (faithful_iff Scram.free_ideal lowersLatin1_ascii word_alice).mpr ⟨by decide, by decide⟩

/-- An accent is enough: the honest client is turned away. -/
theorem accent_not_faithful : ¬ Faithful .bare "alice" "é" := fun h =>
  absurd (latin1_eq_of_faithful Scram.free_ideal lowersLatin1_ascii word_alice (by decide) h)
    (by decide)

end TensorVault.Server
