import TensorVault.Storage.Recovery

/-!
# What a torn log reads as

A crash in the middle of `append` cuts the last line off, and the line carries neither a length nor
a checksum. `parseLine_cut` says which record `readAll` makes of what is left, and
`readAll_take_iff` for exactly which cuts the records read are records that were written. The SQL
text needs its whole base64 field, except for two texts that a shorter field happens to spell: a
field that does not decode is taken as the text itself, and a cut inside a final U+FFFD is read as
U+FFFD.
-/

namespace TensorVault

open Text List

namespace Wal

section Cut

variable {r : WalRecord} {j : Nat} {c : Char} {cs : List Char} (B : Base64.Codec) (J : JsonCodec)
  {b : Bool} {k : Nat} {line : List Char} {i : Nat}

/-! ## The fields of a line -/

theorem isDigit_of_mem_txnIdText (h : c ∈ txnIdText r) :
    c.isDigit = true := Nat.isDigit_of_mem_toDigits (by decide) (by decide) h

theorem txnIdText_ne_nil (r : WalRecord) : txnIdText r ≠ [] :=
  ne_nil_of_length_pos Nat.length_toDigits_pos

theorem toNat_of_isBase64 (h : Base64.isBase64 c = true) : 0x20 < c.toNat ∧ c.toNat < 0x7B := by
  unfold Base64.isBase64 Base64.value at h
  split_ifs at h with h1 h2 h3 h4 h5
  · omega
  · omega
  · omega
  · subst h4; decide
  · subst h5; decide
  · have hpad : c = '=' := by simpa using h
    subst hpad
    decide

/-- Neither the separator nor a control character is in the first four fields. -/
theorem not_mem_txnIdText : '|' ∉ txnIdText r := by
  intro h
  exact absurd (isDigit_of_mem_txnIdText h) (by decide)

theorem not_mem_sqlText : '|' ∉ sqlText B r := by
  intro h
  exact absurd (B.alphabet _ _ h) (by decide)

theorem flag_ne (b : Bool) : '|' ∉ [flag b] := by cases b <;> decide

theorem isSet_flag : isSet [flag b] = b := by cases b <;> decide

theorem mem_physicalText (h : c ∈ physicalText J r) : 0x20 ≤ c.toNat ∧ c.toNat < 0x7F := by
  unfold physicalText at h
  split at h
  · exact J.printable _ c h
  · simp at h

/-- A line is printable ASCII. -/
theorem printable_lineText (h : c ∈ lineText B J r) : 0x20 ≤ c.toNat ∧ c.toNat < 0x80 := by
  have hflag : ∀ b, 0x20 ≤ (flag b).toNat ∧ (flag b).toNat < 0x80 := by decide
  simp only [lineText, mem_append, mem_cons] at h
  rcases h with h | rfl | rfl | rfl | rfl | rfl | h | rfl | h
  · have := toNat_of_isDigit (isDigit_of_mem_txnIdText h)
    omega
  · decide
  · exact hflag _
  · decide
  · exact hflag _
  · decide
  · have := toNat_of_isBase64 (B.alphabet _ _ h)
    omega
  · decide
  · have := mem_physicalText J h
    omega

/-! ## The transaction id -/

/-- Digits that fit 64 bits are read as their value. -/
theorem parseTxnId_of_isDigit (hne : cs ≠ []) (h : ∀ c ∈ cs, c.isDigit = true)
    (hlt : Nat.ofDigitChars 10 cs 0 < 2 ^ 64) :
    parseTxnId cs = UInt64.ofNat (Nat.ofDigitChars 10 cs 0) := by
  have hplus : ∀ rest, cs ≠ '+' :: rest := by
    rintro rest rfl
    exact absurd (h '+' mem_cons_self) (by decide)
  unfold parseTxnId parseU64
  rw [String.toList_ofList]
  split
  · exact absurd rfl (hplus _)
  · simp only [parseDigits_of_isDigit hne h, hlt, if_true, Option.getD_some]

theorem ofDigitChars_txnIdText (r : WalRecord) :
    Nat.ofDigitChars 10 (txnIdText r) 0 = r.txnId.toNat :=
  Nat.ofDigitChars_toDigits (by decide) (by decide)

/-- Further digits only make the number larger, by at least a factor of ten. -/
theorem mul_le_ofDigitChars (cs : List Char) (n : Nat) :
    10 ^ cs.length * n ≤ Nat.ofDigitChars 10 cs n := by
  induction cs generalizing n with
  | nil => simp [Nat.ofDigitChars]
  | cons c cs ih =>
    rw [Nat.ofDigitChars_cons, length_cons, Nat.pow_succ, Nat.mul_assoc]
    exact Nat.le_trans (Nat.mul_le_mul_left _ (Nat.le_add_right _ _)) (ih _)

theorem ofDigitChars_take_le (r : WalRecord) (j : Nat) :
    10 ^ ((txnIdText r).length - j) * Nat.ofDigitChars 10 ((txnIdText r).take j) 0 ≤
      r.txnId.toNat := by
  have hvalue := ofDigitChars_txnIdText r
  rw [← take_append_drop j (txnIdText r), Nat.ofDigitChars_append] at hvalue
  have hle := mul_le_ofDigitChars ((txnIdText r).drop j)
    (Nat.ofDigitChars 10 ((txnIdText r).take j) 0)
  rw [hvalue, length_drop] at hle
  exact hle

/-- A transaction id is read back from its digits only if all of them are there. -/
theorem parseTxnId_take_iff (hj : 0 < j) :
    parseTxnId ((txnIdText r).take j) = r.txnId ↔ (txnIdText r).length ≤ j := by
  have hne : (txnIdText r).take j ≠ [] := by
    simp only [ne_eq, take_eq_nil_iff, txnIdText_ne_nil, or_false]
    omega
  have hdigits : ∀ c ∈ (txnIdText r).take j, c.isDigit = true := fun c hc =>
    isDigit_of_mem_txnIdText (mem_of_mem_take hc)
  have hle := ofDigitChars_take_le r j
  have hid := r.txnId.toNat_lt
  have hpow : 0 < 10 ^ ((txnIdText r).length - j) := Nat.pow_pos (by decide)
  have hsmall : Nat.ofDigitChars 10 ((txnIdText r).take j) 0 ≤ r.txnId.toNat :=
    Nat.le_trans (Nat.le_mul_of_pos_left _ hpow) hle
  rw [parseTxnId_of_isDigit hne hdigits (by omega)]
  constructor
  · intro heq
    have hnat := congrArg UInt64.toNat heq
    rw [UInt64.toNat_ofNat', Nat.mod_eq_of_lt (by omega)] at hnat
    by_contra hshort
    -- A number that is at least ten times itself is zero, and zero has a single digit.
    have hten : 10 ≤ 10 ^ ((txnIdText r).length - j) :=
      Nat.le_self_pow (by omega) 10
    have hzero : r.txnId.toNat = 0 := by
      have := Nat.le_trans (Nat.mul_le_mul_right _ hten) hle
      omega
    have hlen : (txnIdText r).length = 1 := by rw [txnIdText, hzero]; rfl
    omega
  · intro hall
    rw [take_of_length_le hall, ofDigitChars_txnIdText, UInt64.ofNat_toNat]

/-! ## The SQL text and the physical change -/

theorem decode_nil : B.decode [] = some [] := by
  have hnil : B.encode [] = [] := eq_nil_of_length_eq_zero (B.length_encode [])
  have hround := B.decode_encode []
  rwa [hnil] at hround

theorem readSql_nil : readSql B [] = [] := by
  rw [readSql, decode_nil]
  rfl

/-- base64 has no backslash, so the older escaping leaves it alone. -/
theorem decodeLegacySql_of_not_mem (h : '\\' ∉ cs) : decodeLegacySql cs = cs := by
  have hpair : ∀ (b : Char) (cs : List Char), '\\' ∉ cs → hasPair '\\' b cs = false := by
    intro b cs
    induction cs with
    | nil => simp [hasPair]
    | cons x cs ih =>
      intro hx
      simp only [mem_cons, not_or] at hx
      cases cs with
      | nil => rfl
      | cons y cs =>
        rw [hasPair, ih hx.2, Bool.or_false, beq_eq_false_iff_ne.mpr (Ne.symm hx.1)]
        rfl
  unfold decodeLegacySql
  rw [replacePair_of_not_hasPair (hpair '|' cs h), replacePair_of_not_hasPair (hpair 'n' cs h)]

/-- The lengths of the SQL field that are read as the whole text. -/
def SqlKept (r : WalRecord) (k : Nat) : Prop :=
  (sqlText B r).length ≤ k ∨
  (k % 4 ≠ 0 ∧ (sqlText B r).take k = r.sql.toList) ∨
  (k % 4 = 0 ∧ r.sql.toList.getLast? = some Utf8.replacement ∧
    (Utf8.encode r.sql.toList).length < 3 * (k / 4) + 3)

theorem readSql_take_iff : readSql B ((sqlText B r).take k) = r.sql.toList ↔ SqlKept B r k := by
  unfold SqlKept
  by_cases hk : (sqlText B r).length ≤ k
  · rw [take_of_length_le hk, readSql, sqlText, B.decode_encode]
    exact ⟨fun _ => .inl hk, fun _ => Utf8.lossy_encode⟩
  · have hdecode : B.decode ((sqlText B r).take k) = _ :=
      B.decode_take (Utf8.encode r.sql.toList) k (Nat.lt_of_not_le hk)
    rw [readSql, hdecode]
    by_cases hmod : k % 4 = 0
    · have hbytes : 3 * (k / 4) < (Utf8.encode r.sql.toList).length := by
        have hlen : (sqlText B r).length = _ := B.length_encode (Utf8.encode r.sql.toList)
        omega
      simp only [hmod, if_true, Utf8.lossy_take_eq_iff hbytes]
      simp [hk]
    · have hslash : '\\' ∉ (sqlText B r).take k := fun h =>
        absurd (B.alphabet _ _ (mem_of_mem_take h)) (by decide)
      simp only [hmod, if_false, decodeLegacySql_of_not_mem hslash]
      simp [hk, hmod]

theorem readPhysical_take_iff {m : Nat} :
    readPhysical J ((physicalText J r).take m) = r.physicalChange ↔
      (physicalText J r).length ≤ m := by
  unfold readPhysical physicalText
  cases r.physicalChange with
  | none => simp
  | some change =>
    have hne := J.toString_ne_nil change
    by_cases hm : (J.toString change).length ≤ m
    · simp only [take_of_length_le hm, List.isEmpty_iff, hne, if_false, J.fromStr_toString, hm]
    · simp only [hm, iff_false, J.fromStr_take change m (Nat.lt_of_not_le hm)]
      split <;> simp

/-! ## A line that is cut -/

/-- The record that is read from the first `j` characters of a line. -/
def cutRecord (r : WalRecord) (j : Nat) : WalRecord where
  txnId := parseTxnId ((txnIdText r).take j)
  sql := String.ofList (readSql B ((sqlText B r).take (j - ((txnIdText r).length + 5))))
  isCommit := r.isCommit && decide ((txnIdText r).length + 2 ≤ j)
  isRollback := r.isRollback && decide ((txnIdText r).length + 4 ≤ j)
  physicalChange := readPhysical J ((physicalText J r).take
    (j - ((txnIdText r).length + 6 + (sqlText B r).length)))

theorem trimChars_ne_nil (h : isWhitespace c = false) : trimChars (c :: cs) ≠ [] := by
  unfold trimChars
  rw [dropWhile_cons_of_neg (by simp [h]), ne_eq, rdropWhile_eq_nil_iff]
  intro hall
  rw [hall c mem_cons_self] at h
  cases h

/-- A line that starts with digits of a transaction id is not blank. -/
theorem not_blank (hj : 0 < j) (rest : List Char) :
    (trimChars ((txnIdText r).take j ++ rest)).isEmpty = false := by
  obtain ⟨d, ds, hd⟩ := exists_cons_of_ne_nil (txnIdText_ne_nil r)
  obtain ⟨i, rfl⟩ : ∃ i, j = i + 1 := ⟨j - 1, by omega⟩
  have hdigit := toNat_of_isDigit (isDigit_of_mem_txnIdText (r := r) (hd ▸ mem_cons_self))
  have hspace : isWhitespace d = false := by
    simp only [isWhitespace, Bool.or_eq_false_iff, Bool.and_eq_false_iff, beq_eq_false_iff_ne,
      decide_eq_false_iff_not]
    omega
  rw [hd, take_succ_cons, cons_append]
  exact isEmpty_eq_false_iff.mpr (trimChars_ne_nil hspace)

/-- Lines with at most three fields go to the reader of the older format. -/
theorem parseLine_legacy (hline : (trimChars line).isEmpty = false) {fields : List (List Char)}
    (hlen : fields.length < 4) (h5 : splitN '|' 5 line = fields) (h4 : splitN '|' 4 line = fields) :
    parseLine B J line = some
      { txnId := parseTxnId (fields.getD 0 []), sql := ""
        isCommit := (fields[1]?).any isSet, isRollback := (fields[2]?).any isSet
        physicalChange := none } := by
  unfold parseLine
  rw [hline, h5]
  simp only [Bool.false_eq_true, if_false]
  split
  · simp only [length_cons] at hlen
    omega
  · rw [parseLegacyRecord, h4, getElem?_eq_none (i := 3) (by omega)]
    rfl

theorem parseLine_fields (hline : (trimChars line).isEmpty = false)
    {txnId commit rollback sql : List Char} {rest : List (List Char)}
    (h5 : splitN '|' 5 line = txnId :: commit :: rollback :: sql :: rest) :
    parseLine B J line = some
      { txnId := parseTxnId txnId, sql := String.ofList (readSql B sql)
        isCommit := isSet commit, isRollback := isSet rollback
        physicalChange := readPhysical J (rest.headD []) } := by
  unfold parseLine
  rw [hline, h5]
  simp only [Bool.false_eq_true, if_false]

/-- The part of a line behind the transaction id. -/
def restText (r : WalRecord) : List Char :=
  '|' :: flag r.isCommit :: '|' :: flag r.isRollback :: '|' ::
    (sqlText B r ++ '|' :: physicalText J r)

/-- The fields of a line that is cut behind its transaction id, by the number of characters
left there. -/
theorem splitN_cut (r : WalRecord) (n i : Nat) :
    splitN '|' (n + 4) (txnIdText r ++ (restText B J r).take i) =
    match i with
    | 0 => [txnIdText r]
    | 1 => [txnIdText r, []]
    | 2 => [txnIdText r, [flag r.isCommit]]
    | 3 => [txnIdText r, [flag r.isCommit], []]
    | 4 => [txnIdText r, [flag r.isCommit], [flag r.isRollback]]
    | k + 5 => txnIdText r :: [flag r.isCommit] :: [flag r.isRollback] ::
        splitN '|' (n + 1) ((sqlText B r ++ '|' :: physicalText J r).take k) := by
  unfold restText
  have hid := not_mem_txnIdText (r := r)
  have hc := flag_ne r.isCommit
  have hr := flag_ne r.isRollback
  have hcommit : ∀ m rest, splitN '|' (m + 2) (flag r.isCommit :: '|' :: rest) =
      [flag r.isCommit] :: splitN '|' (m + 1) rest := fun m rest => splitN_append hc
  have hrollback : ∀ m rest, splitN '|' (m + 2) (flag r.isRollback :: '|' :: rest) =
      [flag r.isRollback] :: splitN '|' (m + 1) rest := fun m rest => splitN_append hr
  match i with
  | 0 => rw [take_zero, append_nil]; exact splitN_of_not_mem hid
  | 1 | 2 | 3 | 4 =>
    simp only [take_succ_cons, take_zero, splitN_append hid, hcommit, splitN_of_not_mem hc,
      splitN_of_not_mem hr, splitN_of_not_mem (not_mem_nil (a := '|'))]
  | k + 5 =>
    simp only [take_succ_cons]
    rw [splitN_append hid, hcommit, hrollback]

theorem readPhysical_nil : readPhysical J [] = none := rfl

/-- A cut in front of the SQL field. -/
theorem cutRecord_head (hj : j < (txnIdText r).length + 5) :
    cutRecord B J r j =
      { txnId := parseTxnId ((txnIdText r).take j), sql := ""
        isCommit := r.isCommit && decide ((txnIdText r).length + 2 ≤ j)
        isRollback := r.isRollback && decide ((txnIdText r).length + 4 ≤ j)
        physicalChange := none } := by
  unfold cutRecord
  rw [Nat.sub_eq_zero_of_le (Nat.le_of_lt hj), Nat.sub_eq_zero_of_le (by omega), take_zero,
    take_zero, readSql_nil, readPhysical_nil]

theorem not_blank_rest {rest : List Char} : (trimChars (txnIdText r ++ rest)).isEmpty = false := by
  have htake := not_blank (r := r) (length_pos_iff.mpr (txnIdText_ne_nil r)) rest
  rwa [take_length] at htake

theorem take_txnIdText : (txnIdText r).take ((txnIdText r).length + i) = txnIdText r :=
  take_of_length_le (Nat.le_add_right _ _)

/-- A cut behind the transaction id and in front of the SQL field. -/
theorem parseLine_flags (hi : i < 5) :
    parseLine B J (txnIdText r ++ (restText B J r).take i) =
      some (cutRecord B J r ((txnIdText r).length + i)) := by
  have h4 := splitN_cut B J r 0 i
  have h5 := splitN_cut B J r 1 i
  rw [cutRecord_head B J (by omega), take_txnIdText]
  have hnil : isSet [] = false := rfl
  -- by the number of characters left, a flag is there, empty or missing
  match i, hi, h4, h5 with
  | 0, _, h4, h5 | 1, _, h4, h5 | 2, _, h4, h5 | 3, _, h4, h5 | 4, _, h4, h5 =>
    rw [parseLine_legacy B J not_blank_rest (by simp) h5 h4]
    simp [isSet_flag, hnil]

/-- A cut in the SQL field or behind it. -/
theorem parseLine_sql :
    parseLine B J (txnIdText r ++ (restText B J r).take (k + 5)) =
      some (cutRecord B J r ((txnIdText r).length + (k + 5))) := by
  have h5 : splitN '|' 5 (txnIdText r ++ (restText B J r).take (k + 5)) =
      txnIdText r :: [flag r.isCommit] :: [flag r.isRollback] ::
        splitN '|' 2 ((sqlText B r ++ '|' :: physicalText J r).take k) := splitN_cut B J r 1 (k + 5)
  have hbar : '|' ∉ (sqlText B r).take k := fun h => not_mem_sqlText B (mem_of_mem_take h)
  unfold cutRecord
  rw [take_txnIdText, decide_eq_true (by omega), decide_eq_true (by omega), Bool.and_true,
    Bool.and_true, show (txnIdText r).length + (k + 5) - ((txnIdText r).length + 5) = k by omega,
    show (txnIdText r).length + (k + 5) - ((txnIdText r).length + 6 + (sqlText B r).length) =
      k - ((sqlText B r).length + 1) by omega]
  by_cases hsql : k ≤ (sqlText B r).length
  · rw [take_append_of_le_length hsql, splitN_of_not_mem hbar] at h5
    rw [parseLine_fields B J not_blank_rest h5, isSet_flag, isSet_flag,
      Nat.sub_eq_zero_of_le (by omega)]
    rfl
  · obtain ⟨m, rfl⟩ : ∃ m, k = (sqlText B r).length + (m + 1) :=
      ⟨k - (sqlText B r).length - 1, by omega⟩
    rw [take_length_add_append, take_succ_cons, splitN_append (not_mem_sqlText B)] at h5
    rw [parseLine_fields B J not_blank_rest h5, isSet_flag, isSet_flag,
      take_of_length_le (Nat.le_add_right _ _),
      show (sqlText B r).length + (m + 1) - ((sqlText B r).length + 1) = m by omega]
    rfl

/-- **One line.** The record `readAll` makes of the first characters of a line. -/
theorem parseLine_cut (r : WalRecord) (hj : 0 < j) :
    parseLine B J ((lineText B J r).take j) = some (cutRecord B J r j) := by
  have hline : lineText B J r = txnIdText r ++ restText B J r := rfl
  rw [hline]
  by_cases hid : j ≤ (txnIdText r).length
  · have hbar : '|' ∉ (txnIdText r).take j := fun h => not_mem_txnIdText (mem_of_mem_take h)
    have hblank := not_blank (r := r) hj []
    rw [append_nil] at hblank
    rw [take_append_of_le_length hid, parseLine_legacy B J hblank (by simp)
      (splitN_of_not_mem hbar) (splitN_of_not_mem hbar), cutRecord_head B J (by omega),
      decide_eq_false (by omega), decide_eq_false (by omega), Bool.and_false, Bool.and_false]
    rfl
  · obtain ⟨i, rfl⟩ : ∃ i, j = (txnIdText r).length + i := ⟨j - (txnIdText r).length, by omega⟩
    rw [take_length_add_append]
    by_cases hi : i < 5
    · exact parseLine_flags B J hi
    · obtain ⟨k, rfl⟩ : ∃ k, i = k + 5 := ⟨i - 5, by omega⟩
      exact parseLine_sql B J

/-! ## The cuts that are read back -/

/-- The cuts of a line after which it is read as its record. -/
structure LineKept (r : WalRecord) (j : Nat) : Prop where
  txnId : (txnIdText r).length ≤ j
  commit : r.isCommit = true → (txnIdText r).length + 2 ≤ j
  rollback : r.isRollback = true → (txnIdText r).length + 4 ≤ j
  sql : SqlKept B r (j - ((txnIdText r).length + 5))
  physical : r.physicalChange.isSome = true → (lineText B J r).length ≤ j

theorem flag_kept_iff {p : Prop} [Decidable p] :
    (b && decide p) = b ↔ (b = true → p) := by cases b <;> simp

theorem length_lineText (r : WalRecord) : (lineText B J r).length =
    (txnIdText r).length + 6 + (sqlText B r).length + (physicalText J r).length := by
  simp only [lineText, length_append, length_cons]
  omega

theorem cutRecord_eq_iff (hj : 0 < j) : cutRecord B J r j = r ↔ LineKept B J r j := by
  have hlen := length_lineText B J r
  have hphysical : (physicalText J r).length ≤
      j - ((txnIdText r).length + 6 + (sqlText B r).length) ↔
      (r.physicalChange.isSome = true → (lineText B J r).length ≤ j) := by
    unfold physicalText at hlen ⊢
    cases hp : r.physicalChange with
    | none => simp
    | some change =>
      have hpos := length_pos_iff.mpr (J.toString_ne_nil change)
      rw [hp] at hlen
      simp only [Option.isSome_some, forall_const] at hlen ⊢
      omega
  have hfields : cutRecord B J r j = r ↔
      parseTxnId ((txnIdText r).take j) = r.txnId ∧
      readSql B ((sqlText B r).take (j - ((txnIdText r).length + 5))) = r.sql.toList ∧
      (r.isCommit && decide ((txnIdText r).length + 2 ≤ j)) = r.isCommit ∧
      (r.isRollback && decide ((txnIdText r).length + 4 ≤ j)) = r.isRollback ∧
      readPhysical J ((physicalText J r).take
        (j - ((txnIdText r).length + 6 + (sqlText B r).length))) = r.physicalChange := by
    have htext : ∀ cs : List Char, String.ofList cs = r.sql ↔ cs = r.sql.toList := fun cs =>
      ⟨fun h => by rw [← h, String.toList_ofList], fun h => by rw [h, String.ofList_toList]⟩
    rw [WalRecord.ext_iff, ← htext]
    rfl
  rw [hfields, parseTxnId_take_iff hj, readSql_take_iff, flag_kept_iff, flag_kept_iff,
    readPhysical_take_iff, hphysical]
  exact ⟨fun ⟨h1, h2, h3, h4, h5⟩ => ⟨h1, h3, h4, h2, h5⟩,
    fun ⟨h1, h3, h4, h2, h5⟩ => ⟨h1, h2, h3, h4, h5⟩⟩

/-! ## Lines of a file -/

variable {line : List UInt8} {records : List WalRecord}

theorem linesLoop_append (h : 0x0A ∉ line) (acc rest : List UInt8) :
    linesLoop acc (line ++ 0x0A :: rest) = stripCr (acc ++ line) :: linesLoop [] rest := by
  induction line generalizing acc with
  | nil => simp [linesLoop]
  | cons b line ih =>
    simp only [mem_cons, not_or] at h
    rw [cons_append, linesLoop, if_neg (Ne.symm h.1), ih h.2, append_assoc]
    rfl

theorem linesLoop_last (h : 0x0A ∉ line) {acc : List UInt8}
    (hne : acc ++ line ≠ []) : linesLoop acc line = [acc ++ line] := by
  induction line generalizing acc with
  | nil =>
    rw [append_nil] at hne ⊢
    cases acc with
    | nil => exact absurd rfl hne
    | cons b acc => rfl
  | cons b line ih =>
    simp only [mem_cons, not_or] at h
    rw [linesLoop, if_neg (Ne.symm h.1), ih h.2 (by simp), append_assoc]
    rfl

/-- Text without control characters. -/
def Printable (cs : List Char) : Prop := ∀ c ∈ cs, 0x20 ≤ c.toNat ∧ c.toNat < 0x80

theorem Printable.not_mem (h : Printable cs) {d : Char} (hd : d.toNat < 0x20) :
    UInt8.ofNat d.toNat ∉ Utf8.encode cs := by
  rw [Utf8.mem_encode_ascii (fun c hc => (h c hc).2) (by omega)]
  intro hmem
  have := h d hmem
  omega

theorem lines_encode_append (h : Printable cs) {rest : List UInt8} :
    lines (Utf8.encode (cs ++ ['\n']) ++ rest) = Utf8.encode cs :: lines rest := by
  have hcr : (Utf8.encode cs).getLast? ≠ some 0x0D := fun hlast =>
    h.not_mem (d := '\r') (by decide) (mem_of_getLast? hlast)
  rw [Utf8.encode_append, append_assoc, lines]
  have hline := linesLoop_append (h.not_mem (d := '\n') (by decide)) [] rest
  rw [nil_append, stripCr, if_neg hcr] at hline
  exact hline

theorem lines_encode (h : Printable cs) :
    lines (Utf8.encode cs) = if cs.isEmpty then [] else [Utf8.encode cs] := by
  cases cs with
  | nil => rfl
  | cons c cs =>
    obtain ⟨b, t, hc⟩ := Utf8.exists_encodeChar c
    refine linesLoop_last (h.not_mem (d := '\n') (by decide)) ?_
    rw [Utf8.encode_cons, hc]
    simp

theorem printable_cut : Printable ((lineText B J r).take j) :=
  fun _ hc => printable_lineText B J (mem_of_mem_take hc)

theorem lineKept_length (r : WalRecord) : LineKept B J r (lineText B J r).length := by
  have hlen := length_lineText B J r
  exact
    { txnId := by omega
      commit := fun _ => by omega
      rollback := fun _ => by omega
      sql := .inl (by omega)
      physical := fun _ => Nat.le_refl _ }

/-- A complete line is read as its record. -/
theorem parseLine_lineText (r : WalRecord) : parseLine B J (lineText B J r) = some r := by
  have hpos : 0 < (lineText B J r).length :=
    Nat.lt_of_lt_of_le (length_pos_iff.mpr (txnIdText_ne_nil r)) (lineKept_length B J r).txnId
  have hcut := parseLine_cut B J r hpos
  rwa [take_length, (cutRecord_eq_iff B J hpos).mpr (lineKept_length B J r)] at hcut

/-- Complete lines are read as their records, and what is left after them on its own. -/
theorem readAll_append {tail : List Char} (ht : Printable tail) :
    readAll B J (records.flatMap (lineBytes B J) ++ Utf8.encode tail) =
      some (records ++ (parseLine B J tail).toList) := by
  have hlines : lines (records.flatMap (lineBytes B J) ++ Utf8.encode tail) =
      (records.map (lineText B J) ++ if tail.isEmpty then [] else [tail]).map Utf8.encode := by
    induction records with
    | nil =>
      rw [flatMap_nil, nil_append, lines_encode ht]
      cases tail <;> rfl
    | cons r records ih =>
      rw [flatMap_cons, append_assoc, lineBytes,
        lines_encode_append fun c hc => printable_lineText B J hc, ih]
      rfl
  have hdecode : ∀ texts : List (List Char),
      (texts.map Utf8.encode).mapM Utf8.decode = some texts := by
    intro texts
    induction texts with
    | nil => rfl
    | cons cs texts ih =>
      rw [map_cons, mapM_cons, Utf8.decode_encode, ih]
      rfl
  have hrecords : (records.map (lineText B J)).filterMap (parseLine B J) = records := by
    have hsome : (parseLine B J ∘ lineText B J) = some := funext (parseLine_lineText B J)
    rw [filterMap_map, hsome, filterMap_some]
  unfold readAll
  rw [hlines, hdecode]
  simp only [filterMap_append, hrecords]
  cases tail with
  | nil => rfl
  | cons c cs =>
    rw [if_neg (by simp), filterMap_cons]
    cases parseLine B J (c :: cs) <;> rfl

/-! ## Torn files -/

theorem file_eq : file B J records = records.flatMap (lineBytes B J) := by
  exact foldl_append_eq_append

/-- The records whose lines are complete in the first `cut` bytes of the file. -/
def complete : List WalRecord → Nat → List WalRecord
  | [], _ => []
  | r :: records, cut =>
    if (lineBytes B J r).length ≤ cut then
      r :: complete records (cut - (lineBytes B J r).length)
    else []

/-- The record whose line the cut falls into, and the bytes of this line that are left. -/
def torn : List WalRecord → Nat → Option (WalRecord × Nat)
  | [], _ => none
  | r :: records, cut =>
    if (lineBytes B J r).length ≤ cut then torn records (cut - (lineBytes B J r).length)
    else some (r, cut)

/-- The bytes left of the torn line. -/
def tornText (records : List WalRecord) (cut : Nat) : List Char :=
  match torn B J records cut with
  | some (r, j) => (lineText B J r).take j
  | none => []

theorem take_lineBytes (hj : j < (lineBytes B J r).length) :
    (lineBytes B J r).take j = Utf8.encode ((lineText B J r).take j) := by
  have hascii : ∀ c ∈ lineText B J r ++ ['\n'], c.toNat < 0x80 := by
    intro c hc
    rcases mem_append.mp hc with hc | hc
    · exact (printable_lineText B J hc).2
    · rw [mem_singleton.mp hc]
      decide
  rw [lineBytes, Utf8.length_encode_ascii hascii, length_append, length_singleton] at hj
  rw [lineBytes, Utf8.take_encode_ascii hascii, take_append_of_le_length (by omega)]

theorem take_flatMap {cut : Nat} :
    (records.flatMap (lineBytes B J)).take cut =
      (complete B J records cut).flatMap (lineBytes B J) ++
        Utf8.encode (tornText B J records cut) := by
  induction records generalizing cut with
  | nil => simp [complete, tornText, torn, Utf8.encode]
  | cons r records ih =>
    unfold tornText at ih ⊢
    rw [flatMap_cons, complete, torn]
    split
    · next hle =>
      rw [take_append, take_of_length_le hle, ih, flatMap_cons, append_assoc]
    · next hlt =>
      rw [take_append_of_le_length (by omega), take_lineBytes B J (by omega)]
      rfl

variable {records : List WalRecord} {cut : Nat}

/-- The torn record stands right behind the complete ones. -/
theorem eq_complete_append (h : torn B J records cut = some (r, j)) :
    ∃ rest, records = complete B J records cut ++ r :: rest := by
  induction records generalizing cut with
  | nil => cases h
  | cons s records ih =>
    rw [torn] at h
    rw [complete]
    split at h
    · next hle =>
      obtain ⟨rest, hrest⟩ := ih h
      refine ⟨rest, ?_⟩
      rw [if_pos hle, cons_append, ← hrest]
    · next hlt =>
      cases h
      exact ⟨records, by rw [if_neg hlt]; rfl⟩

theorem complete_of_torn_none
    (h : torn B J records cut = none) : complete B J records cut = records := by
  induction records generalizing cut with
  | nil => rfl
  | cons s records ih =>
    rw [torn] at h
    rw [complete]
    split at h
    · next hle => rw [if_pos hle, ih h]
    · cases h

/-- A torn file reads as its complete records and what is made of the torn line. -/
theorem readAll_take :
    readAll B J ((file B J records).take cut) =
      some (complete B J records cut ++ (parseLine B J (tornText B J records cut)).toList) := by
  rw [file_eq, take_flatMap]
  refine readAll_append B J ?_
  unfold tornText
  split
  · exact printable_cut B J
  · intro c hc
    cases hc

/-- **Torn logs.** What `readAll` returns on a byte prefix of the file is a prefix of the records
appended, with all those whose line is complete, exactly when nothing is left of the torn line or
the part that is left still reads as its record. -/
theorem readAll_take_iff (records : List WalRecord) (cut : Nat) :
    (∃ n, (complete B J records cut).length ≤ n ∧
      readAll B J ((file B J records).take cut) = some (records.take n)) ↔
    ∀ r j, torn B J records cut = some (r, j) → j = 0 ∨ LineKept B J r j := by
  rw [readAll_take, tornText]
  cases htorn : torn B J records cut with
  | none =>
    rw [complete_of_torn_none B J htorn]
    refine ⟨fun _ r j h => (by cases h), fun _ => ⟨records.length, Nat.le_refl _, ?_⟩⟩
    rw [take_length]
    show some (records ++ []) = some records
    rw [append_nil]
  | some p =>
    obtain ⟨r, j⟩ := p
    obtain ⟨rest, hrest⟩ := eq_complete_append B J htorn
    generalize complete B J records cut = done at hrest
    subst hrest
    rcases Nat.eq_zero_or_pos j with rfl | hj
    · refine ⟨fun _ r' j' h => ?_, fun _ => ⟨done.length, Nat.le_refl _, ?_⟩⟩
      · cases h
        exact .inl rfl
      · rw [take_left]
        show some (done ++ []) = some done
        rw [append_nil]
    · simp only [parseLine_cut B J r hj, Option.toList_some]
      constructor
      · rintro ⟨n, hn, hread⟩ r' j' h
        cases h
        refine .inr ((cutRecord_eq_iff B J hj).mp ?_)
        obtain ⟨m, rfl⟩ : ∃ m, n = done.length + m := ⟨n - done.length, by omega⟩
        rw [take_length_add_append, Option.some.injEq, append_cancel_left_eq] at hread
        cases m with
        | zero => cases hread
        | succ m =>
          exact (List.cons.inj hread).1
      · intro hkept
        have hline := (hkept r j rfl).resolve_left (by omega)
        refine ⟨done.length + 1, by omega, ?_⟩
        rw [(cutRecord_eq_iff B J hj).mpr hline, take_length_add_append]
        rfl

end Cut

end Wal

/-! ## A codec for physical changes -/

namespace PhysicalChange

/-- The variant and the fields of a change. -/
def numbers : PhysicalChange → List Nat
  | pageAlloc t p => [0, t.toNat, p.toNat]
  | cellUpdate t p i old new => [1, t.toNat, p.toNat, i.toNat, old.toNat, new.toNat]
  | rowInsert t p o values => 2 :: t.toNat :: p.toNat :: o.toNat :: values.map UInt64.toNat
  | rowDelete t p o => [3, t.toNat, p.toNat, o.toNat]

def ofNumbers : List Nat → Option PhysicalChange
  | [0, t, p] => some (pageAlloc (.ofNat t) (.ofNat p))
  | [1, t, p, i, old, new] =>
    some (cellUpdate (.ofNat t) (.ofNat p) (.ofNat i) (.ofNat old) (.ofNat new))
  | 2 :: t :: p :: o :: values =>
    some (rowInsert (.ofNat t) (.ofNat p) (.ofNat o) (values.map UInt64.ofNat))
  | [3, t, p, o] => some (rowDelete (.ofNat t) (.ofNat p) (.ofNat o))
  | _ => none

theorem ofNumbers_numbers {change : PhysicalChange} : ofNumbers change.numbers = some change := by
  cases change with
  | rowInsert t p o values => simp [numbers, ofNumbers, Function.comp_def]
  | _ => simp [numbers, ofNumbers]

/-- Each number with a comma behind it, then the closing bracket. -/
def printNumbers (ns : List Nat) : List Char := ns.flatMap (fun n => Nat.toDigits 10 n ++ [','])

/-- Read up to the closing bracket, with the value of the digits so far. -/
def readNumbers : Nat → List Char → Option (List Nat)
  | _, [] => none
  | acc, c :: cs =>
    if c = ']' then (if cs.isEmpty then some [] else none)
    else if c = ',' then (readNumbers 0 cs).map (acc :: ·)
    else readNumbers (10 * acc + (c.toNat - '0'.toNat)) cs

variable {cs : List Char} {ns : List Nat}

theorem readNumbers_digits {ds : List Char} (h : ∀ c ∈ ds, c.isDigit = true) {acc : Nat} :
    readNumbers acc (ds ++ cs) = readNumbers (Nat.ofDigitChars 10 ds acc) cs := by
  induction ds generalizing acc with
  | nil => rfl
  | cons d ds ih =>
    have hd := h d mem_cons_self
    have hbracket : d ≠ ']' := by rintro rfl; exact absurd hd (by decide)
    have hcomma : d ≠ ',' := by rintro rfl; exact absurd hd (by decide)
    rw [cons_append, readNumbers, if_neg hbracket, if_neg hcomma,
      ih (forall_mem_cons.mp h).2, Nat.ofDigitChars_cons]

theorem readNumbers_print : readNumbers 0 (printNumbers ns ++ [']']) = some ns := by
  induction ns with
  | nil => rfl
  | cons n ns ih =>
    have hdigits : ∀ c ∈ Nat.toDigits 10 n, c.isDigit = true := fun c hc =>
      Nat.isDigit_of_mem_toDigits (by decide) (by decide) hc
    rw [printNumbers, flatMap_cons, append_assoc, append_assoc,
      readNumbers_digits hdigits, Nat.ofDigitChars_toDigits (by decide) (by decide),
      singleton_append, readNumbers, if_neg (by decide), if_pos rfl]
    rw [printNumbers] at ih
    rw [ih]
    rfl

theorem readNumbers_of_not_mem (h : ']' ∉ cs) (acc : Nat) : readNumbers acc cs = none := by
  induction cs generalizing acc with
  | nil => rfl
  | cons c cs ih =>
    simp only [mem_cons, not_or] at h
    rw [readNumbers, if_neg (Ne.symm h.1)]
    split
    · rw [ih h.2]
      rfl
    · exact ih h.2 _

theorem mem_printNumbers {c : Char} (h : c ∈ printNumbers ns) : c.isDigit = true ∨ c = ',' := by
  simp only [printNumbers, mem_flatMap, mem_append, mem_singleton] at h
  obtain ⟨n, -, hc | hc⟩ := h
  · exact .inl (Nat.isDigit_of_mem_toDigits (by decide) (by decide) hc)
  · exact .inr hc

end PhysicalChange

/-- A codec with the laws of `JsonCodec`: the numbers of a change in an array. -/
def JsonCodec.numbers : JsonCodec where
  toString change := PhysicalChange.printNumbers change.numbers ++ [']']
  fromStr cs := (PhysicalChange.readNumbers 0 cs).bind PhysicalChange.ofNumbers
  fromStr_toString := by
    intro change
    rw [PhysicalChange.readNumbers_print]
    exact PhysicalChange.ofNumbers_numbers
  fromStr_take := by
    intro change k hk
    rw [length_append, length_singleton] at hk
    rw [take_append_of_le_length (by omega), PhysicalChange.readNumbers_of_not_mem]
    · rfl
    · intro h
      rcases PhysicalChange.mem_printNumbers (mem_of_mem_take h) with h | h
      · exact absurd h (by decide)
      · exact absurd h (by decide)
  toString_ne_nil := by simp
  printable := by
    intro change c hc
    rcases mem_append.mp hc with hc | hc
    · rcases PhysicalChange.mem_printNumbers hc with hc | rfl
      · have := toNat_of_isDigit hc
        omega
      · decide
    · rw [mem_singleton.mp hc]
      decide

/-! ## A DELETE that loses its WHERE clause -/

namespace Wal

/-- The exact rule at this cut. -/
theorem torn_delete_iff :
    (∃ n, (complete .standard .numbers [WalRecord.autocommit "DELETE FROM t1 WHERE a = 1"]
        26).length ≤ n ∧
      readAll .standard .numbers ((file .standard .numbers
        [WalRecord.autocommit "DELETE FROM t1 WHERE a = 1"]).take 26) =
          some ([WalRecord.autocommit "DELETE FROM t1 WHERE a = 1"].take n)) ↔
    ∀ r j, torn .standard .numbers [WalRecord.autocommit "DELETE FROM t1 WHERE a = 1"] 26 =
      some (r, j) → j = 0 ∨ LineKept .standard .numbers r j :=
  readAll_take_iff .standard .numbers _ 26

/-- Five groups of the base64 field are left. They hold fifteen bytes of the statement, and these
are a statement that was never written. -/
theorem torn_delete_read :
    readAll .standard .numbers ((file .standard .numbers
      [WalRecord.autocommit "DELETE FROM t1 WHERE a = 1"]).take 26) =
        some [WalRecord.autocommit "DELETE FROM t1 "] ∧
    ¬ ∃ n, readAll .standard .numbers ((file .standard .numbers
      [WalRecord.autocommit "DELETE FROM t1 WHERE a = 1"]).take 26) =
        some ([WalRecord.autocommit "DELETE FROM t1 WHERE a = 1"].take n) := by
  have hread : readAll .standard .numbers ((file .standard .numbers
      [WalRecord.autocommit "DELETE FROM t1 WHERE a = 1"]).take 26) =
        some [WalRecord.autocommit "DELETE FROM t1 "] := by decide +kernel
  refine ⟨hread, ?_⟩
  rintro ⟨n, hn⟩
  cases n with
  | zero => cases hn
  | succ n =>
    rw [take_succ_cons, take_nil] at hn
    exact absurd hn (by decide)

end Wal

end TensorVault
