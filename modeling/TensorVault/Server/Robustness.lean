import TensorVault.Server.Discipline

/-!
# Panics in the connection handler

A negative length field is cast to `usize`, and allocating the buffer for it panics. The other
places where the handler itself can panic are slices: of a result that is sent in parts, and of the
text of a CREATE USER. `NonNegative` is the condition on the stream, `Safe` the condition on a
message in the state in which it is handled (`connection_never_panics`).
-/

namespace TensorVault.Server

variable {input rest : List UInt8} {len : Int} {tag : UInt8}

open Text Proc Run List Option

/-! ## Lengths -/

/-- The type and the length field of the next message. -/
def header : List UInt8 → Option (UInt8 × Int × List UInt8)
  | tag :: a :: b :: c :: d :: rest => some (tag, beI32 a b c d, rest)
  | _ => none

theorem length_lt_of_header (h : header input = some (tag, len, rest)) :
    rest.length < input.length := by
  unfold header at h
  split at h
  · cases h
    simp only [length_cons]
    omega
  · cases h

/-- The length fields of the messages whose bodies are read. -/
def lengthFields (input : List UInt8) : List Int :=
  match h : header input with
  | none => []
  | some (tag, len, rest) =>
    if bodyless tag then lengthFields rest
    else len :: if 4 ≤ len then lengthFields (rest.drop (len - 4).toNat) else []
termination_by input.length
decreasing_by
  · exact length_lt_of_header h
  · have hlt := length_lt_of_header h
    simp only [length_drop]
    omega

/-- No length field is negative. -/
def NonNegative (input : List UInt8) : Prop := ∀ len ∈ lengthFields input, 0 ≤ len

theorem lengthFields_of_header (h : header input = some (tag, len, rest)) : lengthFields input =
      if bodyless tag then lengthFields rest
      else len :: if 4 ≤ len then lengthFields (rest.drop (len - 4).toNat) else [] := by
  rw [lengthFields]
  split
  · next hnone => rw [h] at hnone; cases hnone
  · next hsome =>
    cases h.symm.trans hsome
    rfl

theorem beI32_lt {a b c d : UInt8} : beI32 a b c d < 0x80000000 := by
  have ha := a.toNat_lt
  have hb := b.toNat_lt
  have hc := c.toNat_lt
  have hd := d.toNat_lt
  have hlt : beU32 a b c d < 0x100000000 := by
    unfold beU32 beU16
    omega
  unfold beI32
  split <;> omega

/-- The fields of a message that is not negative in length. -/
theorem NonNegative.of_header (h : NonNegative input)
    (hheader : header input = some (tag, len, rest)) :
    if bodyless tag then NonNegative rest
    else 0 ≤ len ∧ (4 ≤ len → NonNegative (rest.drop (len - 4).toNat)) := by
  unfold NonNegative at h
  rw [lengthFields_of_header hheader] at h
  split
  · next htag => rwa [if_pos htag] at h
  · next htag =>
    rw [if_neg htag] at h
    refine ⟨h len mem_cons_self, fun hfour x hx => h x (mem_cons_of_mem _ ?_)⟩
    rwa [if_pos hfour]

/-- Reading a body whose length is not negative. -/
theorem readBody_wp (hnonneg : 0 ≤ len) (hlt : len < 0x80000000) (hlen : ¬ asUsize len < 4) :
    4 ≤ len ∧ wp (readBody (asUsize len - 4)) (fun _ rest' => rest' = rest.drop (len - 4).toNat)
      (fun e _ => e ≠ .panicked) rest := by
  have hcast : asUsize len = len.toNat := by
    unfold asUsize
    rw [Int.emod_eq_of_lt hnonneg (by omega)]
  have hfour : 4 ≤ len := by omega
  have hsub : (len - 4).toNat = len.toNat - 4 := by omega
  have hcap : len.toNat - 4 ≤ maxCapacity := by
    unfold maxCapacity
    omega
  refine ⟨hfour, ?_⟩
  rw [hcast, hsub]
  unfold readBody
  rw [if_pos hcap]
  unfold wp readExact
  by_cases hshort : len.toNat - 4 ≤ rest.length
  · rw [if_pos hshort]
  · rw [if_neg hshort]
    simp

/-- A length field that could be read. -/
theorem header_of_readI32Be (h : readI32Be input = (.ok len, rest)) :
    header (tag :: input) = some (tag, len, rest) ∧ len < 0x80000000 := by
  unfold readI32Be at h
  split at h
  · cases h
    exact ⟨rfl, beI32_lt⟩
  · cases h

variable {e : Stop} {short : String} {n : Nat}

theorem readI32Be_ne_panicked (h : readI32Be input = (.error e, rest)) : e ≠ .panicked := by
  unfold readI32Be at h
  split at h
  · cases h
  · cases h
    simp

/-- The body of a message of a type whose bodies are read. -/
theorem NonNegative.readBody (h : NonNegative (tag :: input)) (htag : bodyless tag = false)
    (hread : readI32Be input = (.ok len, rest)) (hlen : ¬ asUsize len < 4) :
    wp (readBody (asUsize len - 4)) (fun _ rest' => NonNegative rest') (fun e _ => e ≠ .panicked)
      rest := by
  obtain ⟨hheader, hlt⟩ := header_of_readI32Be hread
  have hfields := h.of_header hheader
  rw [if_neg (by simp [htag])] at hfields
  obtain ⟨hfour, hbody⟩ := readBody_wp hfields.1 hlt hlen
  exact wp_mono hbody (fun _ _ hrest => hrest ▸ hfields.2 hfour) fun _ _ he => he

theorem readMessage_wp (h : NonNegative input) :
    wp readMessage (fun _ rest => NonNegative rest) (fun e _ => e ≠ .panicked) input := by
  cases input with
  | nil => exact fun heq => by cases heq
  | cons tag input =>
    change wp (readRest tag) _ _ input
    unfold readRest
    rw [wp_bind]
    refine wp_of_forall (fun len rest hread => ?_) fun _ _ hread => readI32Be_ne_panicked hread
    split
    · exact fun heq => by cases heq
    next hlen =>
    split
    · next htag =>
      have hfields := h.of_header (header_of_readI32Be hread).1
      rwa [if_pos htag] at hfields
    · next htag =>
      rw [wp_bind]
      exact wp_mono (h.readBody (by simpa using htag) hread hlen) (fun _ _ h => h) fun _ _ h => h

theorem readPassword_wp (h : NonNegative input) :
    wp (readPassword short) (fun _ rest => NonNegative rest) (fun e _ => e ≠ .panicked) input := by
  unfold readPassword
  cases input with
  | nil => exact fun heq => by cases heq
  | cons tag input =>
    change wp (if tag = 0x70 then _ else _) _ _ input
    split
    · next htag =>
      rw [wp_bind]
      refine wp_of_forall (fun len rest hread => ?_) fun _ _ hread => readI32Be_ne_panicked hread
      split
      · exact fun heq => by cases heq
      · next hlen => exact h.readBody (by rw [htag]; rfl) hread hlen
    · exact fun heq => by cases heq

/-- A stream without negative lengths is read to its end. -/
theorem messagesLoop_end (h : NonNegative input) : (messagesLoop n input).2 ≠ .panicked := by
  induction n generalizing input with
  | zero => simp [messagesLoop]
  | succ n ih =>
    have hread := readMessage_wp h
    unfold messagesLoop
    split
    · next e rest heq => exact (of_wp_error hread heq :)
    · next m rest heq =>
      have hrest := ih (of_wp_ok hread heq)
      split
      next ms e hms => rwa [hms] at hrest

/-! ## Messages -/

section

variable {α : Type} {sql : String} {σ δ : Type} {name : String}

/-- Every column has a cell for every row. -/
def Rectangular (qr : QueryResult) : Prop :=
  ∀ c ∈ qr.columns, qr.rowCount ≤ c.values.length ∧
    (∀ xs, c.stringValues = some xs → qr.rowCount ≤ xs.length) ∧
    ∀ xs, c.nullMask = some xs → qr.rowCount ≤ xs.length

/-- The wire layer or the engine answers the text, whatever the state of the engine. -/
@[irreducible] def Answered (S : Services σ δ) (sql : String) : Prop :=
  match userDdl S.host sql with
  | some ddl => ddl ≠ .abort
  | none => ∀ shared, S.tryReadonlySelect shared sql ≠ none ∧ S.execute shared sql ≠ none

/-- The results for the text can be sent in parts. -/
def Sliceable (S : Services σ δ) (sql : String) : Prop :=
  ∀ shared shared' qr, S.tryReadonlySelect shared sql = some (shared', .ok qr) ∨
    S.execute shared sql = some (shared', .ok qr) → Rectangular qr

/-- BEGIN, COMMIT and ROLLBACK, which a simple query does not pass on. -/
def controlsTxn (H : Host) (stmt : String) : Bool :=
  let lower := H.toLowercase stmt
  startsWith lower "begin" || startsWith lower "start transaction" || startsWith lower "commit" ||
    startsWith lower "rollback"

/-- What is asked of the text of a portal. -/
def PortalSafe (S : Services σ δ) (portal : Portal) (stmt : PreparedStatement) (maxRows : Int) :
    Prop :=
  ∃ sql, substituteParams S.overflowChecks stmt.sql portal.params = some sql ∧ Answered S sql ∧
    (0 < maxRows → Sliceable S sql)

/-- The statements of the message are answered, and what an Execute sends in parts has all its
cells. -/
@[irreducible] def Safe (S : Services σ δ) (w : World σ) (m : Message) : Prop :=
  (m.tag = 0x51 → ∀ sql, queryText m.body = .ok sql → ∀ stmt ∈ splitSqlBatch sql,
    trim stmt = "" ∨ controlsTxn S.host (trim stmt) = true ∨ Answered S (trim stmt)) ∧
  (m.tag = 0x45 → ∀ name maxRows portal stmt, (decodeExecute m.body).1 = .ok (name, maxRows) →
    w.conn.portals name = some portal → portal.cachedResult = none →
      w.conn.statements portal.stmtName = some stmt → PortalSafe S portal stmt maxRows)

/-- The rows that portals have left can be sent. -/
def CachedRectangular (conn : PgConn) : Prop :=
  ∀ name portal cached, conn.portals name = some portal → portal.cachedResult = some cached →
    Rectangular cached.result

/-- What holds between two messages. -/
structure Sane (w : World σ) : Prop where
  input : NonNegative w.input
  cached : CachedRectangular w.conn

/-- The process does not panic in a sane world, and leaves it sane. -/
def Sound {α : Type} (x : Handler σ α) : Prop :=
  ∀ w, Sane w → wp x (fun _ => Sane) (fun e _ => e ≠ .panicked) w

theorem Sound.bind {β : Type} {x : Handler σ α} {f : α → Handler σ β} (hx : Sound x)
    (hf : ∀ a, Sound (f a)) : Sound (x >>= f) := by
  intro w hw
  rw [wp_bind]
  exact wp_mono (hx w hw) (fun a w' hw' => hf a w' hw') fun _ _ h => h

theorem sound_record {ev : Event} : Sound (record ev : Handler σ Unit) :=
  fun _ hw => ⟨hw.input, hw.cached⟩

theorem sound : Closed (fun _ => Sound : (α : Type) → Handler σ α → Prop) where
  pure _ _ hw := hw
  get _ hw := hw
  stop h _ _ := h
  bind := Sound.bind
  send _ := sound_record
  setSession _ _ hw := ⟨hw.input, hw.cached⟩
  setStatements _ _ hw := ⟨hw.input, hw.cached⟩

/-- A portal whose rows can be sent, or none. -/
theorem sound_setPortal {portal : Option Portal}
    (h : ∀ q cached, portal = some q → q.cachedResult = some cached → Rectangular cached.result) :
    Sound (setPortals (setEntry name portal) : Handler σ Unit) := by
  intro w hw
  refine ⟨hw.input, fun name' q cached hq hcached => ?_⟩
  change setEntry name portal w.conn.portals name' = some q at hq
  unfold setEntry at hq
  split at hq
  · exact h q cached hq hcached
  · exact hw.cached name' q cached hq hcached

theorem sound_call (f : σ → σ × α) : Sound (call f : Handler σ α) :=
  fun _ hw => ⟨hw.input, hw.cached⟩

theorem sound_orPanic {a : Option α} (h : a ≠ none) : Sound (orPanic a : Handler σ α) := by
  cases a with
  | none => exact absurd rfl h
  | some a => exact sound.pure a

/-! ## Slices -/

variable {start stop : Nat} (S : Services σ δ) {w : World σ} {buf : List UInt8} {H : Host}
  {portal : Portal} {maxRows : Int}

theorem sliceList_ne_none {xs : List α} (h : start ≤ stop)
    (hlen : stop ≤ xs.length) : sliceList xs start stop = some ((xs.take stop).drop start) :=
  if_pos ⟨h, hlen⟩

theorem sliceOption_ne_none {xs : Option (List α)} (h : start ≤ stop)
    (hlen : ∀ ys, xs = some ys → stop ≤ ys.length) : sliceOption xs start stop ≠ none := by
  cases xs with
  | none => simp [sliceOption]
  | some ys => simp [sliceOption, sliceList_ne_none h (hlen ys rfl)]

/-- A slice within the rows of a rectangular result. -/
theorem sliceResult_ne_none {qr : QueryResult} (h : Rectangular qr)
    (hle : min start qr.rowCount ≤ min stop qr.rowCount) : sliceResult qr start stop ≠ none := by
  have hcolumn : ∀ c ∈ qr.columns,
      sliceColumn (min start qr.rowCount) (min stop qr.rowCount) c ≠ none := by
    intro c hc
    obtain ⟨hvalues, htexts, hmask⟩ := h c hc
    have hstop : min stop qr.rowCount ≤ qr.rowCount := Nat.min_le_right _ _
    obtain ⟨texts, ht⟩ := ne_none_iff_exists'.mp
      (sliceOption_ne_none hle fun ys hys => hstop.trans (htexts ys hys))
    obtain ⟨mask, hm⟩ := ne_none_iff_exists'.mp
      (sliceOption_ne_none hle fun ys hys => hstop.trans (hmask ys hys))
    simp [sliceColumn, sliceList_ne_none hle (hstop.trans hvalues), ht, hm]
  have hall : ∀ columns : List ResultColumn, (∀ c ∈ columns,
      sliceColumn (min start qr.rowCount) (min stop qr.rowCount) c ≠ none) →
      columns.mapM (sliceColumn (min start qr.rowCount) (min stop qr.rowCount)) ≠ none := by
    intro columns hcolumns
    induction columns with
    | nil => simp
    | cons c columns ih =>
      obtain ⟨c', hc'⟩ := ne_none_iff_exists'.mp (hcolumns c mem_cons_self)
      obtain ⟨cs, hcs⟩ := ne_none_iff_exists'.mp (ih fun d hd => hcolumns d (mem_cons_of_mem _ hd))
      simp [mapM_cons, hc', hcs]
  obtain ⟨columns, hcolumns⟩ := ne_none_iff_exists'.mp (hall qr.columns hcolumn)
  simp [sliceResult, hcolumns]

/-! ## Every message -/

theorem sound_tryHandleUserDdl (h : Answered S sql) : Sound (tryHandleUserDdl S sql) := by
  unfold Answered at h
  unfold tryHandleUserDdl
  split
  · exact sound.pure _
  · next habort =>
    rw [habort] at h
    exact absurd rfl h
  · exact sound.pure _
  · exact (sound_call _).bind fun _ => sound_record.bind fun _ => sound.pure _
  · refine (sound_call _).bind fun existed => ?_
    split
    · exact sound_record.bind fun _ => sound.pure _
    · split <;> exact sound.pure _

/-- Only a text that is no user statement is left to the engine. -/
theorem tryHandleUserDdl_none {w : World σ} :
    wp (tryHandleUserDdl S sql) (fun r _ => r = none → userDdl S.host sql = none) (fun _ _ => True)
      w := by
  unfold tryHandleUserDdl
  split
  · next hnone => exact fun _ => hnone
  · trivial
  · exact fun h => by cases h
  · exact fun h => by cases h
  · rw [wp_bind]
    refine wp_any (fun existed w' => ?_) fun _ _ => trivial
    split
    · exact fun h => by cases h
    · split <;> exact fun h => by cases h

/-- The engine returns on a text that is left to it. -/
theorem Answered.engine (h : Answered S sql) (hnone : userDdl S.host sql = none) :
    ∀ shared, S.tryReadonlySelect shared sql ≠ none ∧ S.execute shared sql ≠ none := by
  unfold Answered at h
  rwa [hnone] at h

theorem callPanic_wp {f : σ → Option (σ × α)} (h : ∀ shared, f shared ≠ none) (hw : Sane w) :
    wp (callPanic f) (fun a w' => Sane w' ∧ ∃ shared', f w.shared = some (shared', a))
      (fun e _ => e ≠ .panicked) w := by
  unfold wp callPanic
  cases hf : f w.shared with
  | none => exact absurd hf (h _)
  | some p => exact ⟨⟨hw.input, hw.cached⟩, p.1, rfl⟩

theorem askEngine_wp
    (h : ∀ shared, S.tryReadonlySelect shared sql ≠ none ∧ S.execute shared sql ≠ none)
    (hw : Sane w) :
    wp (askEngine S sql)
      (fun r w' => Sane w' ∧ (Sliceable S sql → ∀ qr, r = .ok qr → Rectangular qr))
      (fun e _ => e ≠ .panicked) w := by
  unfold askEngine
  rw [wp_bind]
  refine wp_mono (callPanic_wp (fun shared => (h shared).1) hw) (fun r w₁ hr => ?_) fun _ _ he => he
  obtain ⟨hw₁, shared', hselect⟩ := hr
  split
  · refine ⟨hw₁, fun hslice qr hqr => ?_⟩
    cases hqr
    exact hslice _ _ _ (.inl hselect)
  · refine wp_mono (callPanic_wp (fun shared => (h shared).2) hw₁) (fun r w₂ hr => ?_)
      fun _ _ he => he
    obtain ⟨hw₂, shared'', hexecute⟩ := hr
    refine ⟨hw₂, fun hslice qr hqr => ?_⟩
    cases hqr
    exact hslice _ _ _ (.inr hexecute)

theorem runSql_wp
    (h : ∀ shared, S.tryReadonlySelect shared sql ≠ none ∧ S.execute shared sql ≠ none)
    (hw : Sane w) :
    wp (runSql S sql)
      (fun r w' => Sane w' ∧ (Sliceable S sql → ∀ qr, r = .ok qr → Rectangular qr))
      (fun e _ => e ≠ .panicked) w := by
  unfold runSql
  rw [wp_bind]
  exact wp_mono (sound_record w hw) (fun _ _ hw' => askEngine_wp S h hw') fun _ _ he => he

theorem sound_runStatements {wasTxn : Bool} {stmts : List String}
    (h : ∀ stmt ∈ stmts, trim stmt = "" ∨ controlsTxn S.host (trim stmt) = true ∨
      Answered S (trim stmt)) : Sound (runStatements S wasTxn stmts) := by
  induction stmts with
  | nil => exact sound.pure ()
  | cons stmt rest ih =>
    have hrest := ih (forall_mem_cons.mp h).2
    have hcomplete : ∀ tag, Sound
        (send (.commandComplete tag) >>= fun _ => runStatements S wasTxn rest) :=
      fun tag => (sound.send _).bind fun _ => hrest
    have hfail : ∀ msg,
        Sound (sendError "42000" msg >>= fun _ => failTxn wasTxn : Handler σ Unit) :=
      fun msg => sound.sendError.bind fun _ => sound.failTxn
    have hstmt := h stmt mem_cons_self
    unfold controlsTxn at hstmt
    unfold runStatements
    simp only
    split
    · exact hrest
    next hblank =>
    split
    · exact (sound.setSession _).bind fun _ => hcomplete _
    next hbegin =>
    split
    · exact (sound.setSession _).bind fun _ => hcomplete _
    next hcommit =>
    split
    · exact (sound.setSession _).bind fun _ => hcomplete _
    next hrollback =>
    have hanswered : Answered S (trim stmt) := by
      rcases hstmt with hstmt | hstmt | hstmt
      · exact absurd hstmt hblank
      · simp only [Bool.or_eq_true] at hstmt hbegin
        rcases hstmt with (hstmt | hstmt) | hstmt
        · exact absurd hstmt hbegin
        · exact absurd hstmt hcommit
        · exact absurd hstmt hrollback
      · exact hstmt
    intro w hw
    rw [wp_bind]
    refine wp_mono (wp_and (sound_tryHandleUserDdl S hanswered w hw)
      (tryHandleUserDdl_none S)) (fun outcome w₁ hout => ?_) fun _ _ he => he.1
    obtain ⟨hw₁, hnone⟩ := hout
    split
    · exact hcomplete _ w₁ hw₁
    · exact hfail _ w₁ hw₁
    · rw [wp_bind]
      refine wp_mono (runSql_wp S (hanswered.engine S (hnone rfl)) hw₁) (fun r w₂ hr => ?_)
        fun _ _ he => he
      split
      · exact (sound.sendRowDescription.bind fun _ => sound.sendDataRows.bind fun _ =>
          hcomplete _) w₂ hr.1
      · exact hfail _ w₂ hr.1

theorem sound_handleSimpleQuery
    (h : ∀ stmt ∈ splitSqlBatch sql, trim stmt = "" ∨ controlsTxn S.host (trim stmt) = true ∨
      Answered S (trim stmt)) : Sound (handleSimpleQuery S sql) :=
  sound.bind sound.get fun _ =>
    (sound_runStatements S h).bind fun _ => sound.sendReadyForQuery

theorem decodeBody_wp {x : Decoder α} {P : α → Prop}
    (h : wp x (fun a _ => P a) (fun _ _ => True) buf) :
    wp (decodeBody x buf) (fun a w' => w' = w ∧ P a) (fun e _ => e ≠ .panicked) w := by
  unfold wp at h
  unfold decodeBody
  split at h
  · next a rest hrun =>
    rw [hrun]
    exact ⟨rfl, h⟩
  · next e rest hrun =>
    rw [hrun]
    exact fun heq => by cases heq

/-- A portal from a Bind has no rows yet. -/
theorem decodeBind_cached :
    wp decodeBind (fun r _ => r.2.cachedResult = none) (fun _ _ => True) buf := by
  unfold decodeBind
  simp only [wp_bind, wp_pure]
  refine wp_any (fun _ _ => ?_) fun _ _ => trivial
  refine wp_any (fun _ _ => ?_) fun _ _ => trivial
  refine wp_any (fun _ _ => ?_) fun _ _ => trivial
  refine wp_any (fun _ _ => ?_) fun _ _ => trivial
  refine wp_any (fun _ _ => ?_) fun _ _ => trivial
  refine wp_any (fun _ _ => ?_) fun _ _ => trivial
  refine wp_any (fun _ _ => ?_) fun _ _ => trivial
  exact wp_any (fun _ _ => rfl) fun _ _ => trivial

theorem sound_handleBind : Sound (handleBind buf : Handler σ Unit) := by
  intro w hw
  unfold handleBind
  rw [wp_bind]
  refine wp_mono (decodeBody_wp decodeBind_cached) (fun r w₁ hr => ?_) fun _ _ he => he
  obtain ⟨rfl, hcached⟩ := hr
  rw [wp_bind, wp_get]
  split
  · exact sound.sendError w₁ hw
  · refine ((sound_setPortal fun q cached hq hsome => ?_).bind fun _ => sound.send _) w₁ hw
    cases hq
    cases hcached.symm.trans hsome

theorem sound_handleClose : Sound (handleClose buf : Handler σ Unit) :=
  sound.handleClose (fun _ => sound_setPortal fun q cached hq => by cases hq)

/-- The rows that are left are within the result. -/
theorem sound_drainPortal {cached : CachedResult}
    (hrows : Rectangular cached.result) (hportal : portal.cachedResult = some cached) :
    Sound (drainPortal H name portal cached maxRows : Handler σ Unit) := by
  have hslice : sliceResult cached.result portal.cachedOffset (drainEnd portal cached maxRows) ≠
      none := by
    refine sliceResult_ne_none hrows ?_
    unfold drainEnd
    simp only
    split <;> omega
  refine (sound_orPanic hslice).bind fun batch => sound.sendDataRows.bind fun _ => ?_
  split
  · refine (sound.send _).bind fun _ => sound_setPortal fun q c hq hc => ?_
    cases hq
    cases hc
  · refine (sound.send _).bind fun _ => sound_setPortal fun q c hq hc => ?_
    cases hq
    cases hportal.symm.trans hc
    exact hrows

theorem sound_answerExecute {r : Except Error QueryResult}
    (h : 0 < maxRows → ∀ qr, r = .ok qr → Rectangular qr) :
    Sound (answerExecute H name portal sql maxRows r : Handler σ Unit) := by
  unfold answerExecute
  split
  · exact sound.sendError
  · next qr =>
    split
    · next hpart =>
      have hrows := h hpart.1 qr rfl
      refine (sound_orPanic (sliceResult_ne_none hrows (by omega))).bind fun batch =>
        sound.sendDataRows.bind fun _ => (sound.send _).bind fun _ =>
          sound_setPortal fun q c hq hc => ?_
      cases hq
      cases hc
      exact hrows
    · exact sound.sendDataRows.bind fun _ => sound.send _

theorem sound_executePortal {stmt : PreparedStatement} (h : PortalSafe S portal stmt maxRows) :
    Sound (executePortal S name portal stmt maxRows) := by
  obtain ⟨sql, hsql, hanswered, hslice⟩ := h
  intro w hw
  unfold executePortal
  rw [hsql, wp_bind, orPanic, wp_pure, wp_bind]
  refine wp_mono (wp_and (sound_tryHandleUserDdl S hanswered w hw) (tryHandleUserDdl_none S))
    (fun outcome w₁ hout => ?_) fun _ _ he => he.1
  obtain ⟨hw₁, hnone⟩ := hout
  split
  · exact sound.send _ w₁ hw₁
  · exact sound.sendError w₁ hw₁
  · rw [wp_bind]
    refine wp_mono (runSql_wp S (hanswered.engine S (hnone rfl)) hw₁) (fun r w₂ hr => ?_)
      fun _ _ he => he
    exact sound_answerExecute (fun hpos => hr.2 (hslice hpos)) w₂ hr.1

theorem handleExecute_wp (hw : Sane w)
    (h : ∀ name maxRows portal stmt, (decodeExecute buf).1 = .ok (name, maxRows) →
      w.conn.portals name = some portal → portal.cachedResult = none →
        w.conn.statements portal.stmtName = some stmt → PortalSafe S portal stmt maxRows) :
    wp (handleExecute S buf) (fun _ => Sane) (fun e _ => e ≠ .panicked) w := by
  unfold handleExecute
  rw [wp_bind]
  unfold decodeBody
  cases hbody : (decodeExecute buf).1 with
  | error e => exact fun heq => by cases heq
  | ok target =>
    obtain ⟨name, maxRows⟩ := target
    rw [wp_pure, wp_bind, wp_get]
    split
    · exact sound.sendError w hw
    · next portal hportal =>
      split
      · next cached hcached =>
        exact sound_drainPortal (hw.cached name portal cached hportal hcached) hcached w hw
      · next hcached =>
        split
        · exact sound.sendError w hw
        · next stmt hstmt =>
          exact sound_executePortal S (h name maxRows portal stmt hbody hportal hcached hstmt) w hw

/-- **One message** does not panic. -/
theorem handleMessage_wp {m : Message} (hw : Sane w) (h : Safe S w m) :
    wp (handleMessage S m) (fun _ => Sane) (fun e _ => e ≠ .panicked) w := by
  unfold Safe at h
  obtain ⟨hquery, hexecute⟩ := h
  unfold handleMessage
  split
  · next htag =>
    split
    · next sql hsql => exact sound_handleSimpleQuery S (hquery htag sql hsql) w hw
    · exact fun heq => by cases heq
  split
  · exact sound.handleParse w hw
  split
  · exact sound_handleBind w hw
  split
  · exact sound.handleDescribe w hw
  split
  · next htag => exact handleExecute_wp S hw (hexecute htag)
  split
  · exact sound.sendReadyForQuery w hw
  split
  · exact (sound_handleClose.bind fun _ => sound.send _) w hw
  split
  · exact hw
  split
  · exact fun heq => by cases heq
  · exact sound.sendError w hw

/-- The messages of a stream, each safe in the state it is handled in. -/
theorem handleMessages_wp {ms : List Message} (hw : Sane w)
    (h : Along (messageStep S) (Safe S) w ms) :
    wp (handleMessages S ms) (fun _ => Sane) (fun e _ => e ≠ .panicked) w := by
  induction ms generalizing w with
  | nil => exact hw
  | cons m ms ih =>
    have hone := handleMessage_wp S hw h.1
    have hrest := h.2
    unfold messageStep at hrest
    unfold handleMessages
    rw [wp_bind]
    refine wp_of_forall (fun _ w' hrun => ?_) fun _ _ hrun => (of_wp_error hone hrun :)
    rw [hrun] at hrest
    exact ih (of_wp_ok hone hrun) (hrest w' rfl)

/-! ## The startup -/

theorem sound_receivePassword : Sound (receive (readPassword short) : Handler σ (List UInt8)) := by
  intro w hw
  rw [wp_receive]
  exact wp_mono (readPassword_wp hw.input) (fun _ _ h => ⟨h, hw.cached⟩) fun _ _ h => h

variable [DecidableEq δ]

theorem sound_doScramAuth : Sound (doScramAuth S) :=
  sound.scramAuth S sound_call (fun _ => sound_record)
    (sound_receivePassword.bind fun _ => sound.decodeBody) sound_receivePassword

theorem readPacket_ne_panicked (h : readPacket input = (.error e, rest)) : e ≠ .panicked := by
  have hwp : wp readPacket (fun _ _ => True) (fun e _ => e ≠ .panicked) input := by
    unfold readPacket
    rw [wp_bind]
    refine wp_of_forall (fun len input' _ => ?_) fun _ _ hread => readI32Be_ne_panicked hread
    split
    · rw [wp_bind]
      refine wp_of_forall (fun body _ _ => ?_) fun e' _ hread => ?_
      · split
        · exact fun heq => by cases heq
        · trivial
      · unfold readExact at hread
        split at hread <;> cases hread
        exact fun heq => by cases heq
    · exact fun heq => by cases heq
  exact (of_wp_error hwp h :)

theorem startupLoop_wp (hcached : CachedRectangular w.conn)
    (h : ∀ body rest, lastPacketLoop n w.input = some (body, rest) → NonNegative rest) :
    wp (startupLoop S n) (fun _ => Sane) (fun e _ => e ≠ .panicked) w := by
  induction n generalizing w with
  | zero => exact fun heq => by cases heq
  | succ n ih =>
    unfold startupLoop
    rw [wp_bind, wp_receive]
    refine wp_of_forall (fun body rest hread => ?_) fun _ _ hread => readPacket_ne_panicked hread
    simp only [lastPacketLoop, hread] at h
    simp only
    split
    · next htls =>
      rw [if_pos htls] at h
      exact ih hcached h
    next htls =>
    rw [if_neg htls] at h
    have hw : Sane ({ w with input := rest } : World σ) := ⟨h body rest rfl, hcached⟩
    split
    · exact hw
    split
    · refine (Sound.bind (sound.setSession _) fun _ => ?_) _ hw
      split
      · exact sound_doScramAuth S
      · exact sound.sendAuthOkAndParams
    · exact sound.reject _ hw

/-- **No panics.** If no length field behind the startup is negative, and every message is safe in
the state in which it is handled, the connection ends without a panic. -/
theorem connection_never_panics (shared : σ) (input : List UInt8)
    (hlengths : ∀ body rest, lastPacket input = some (body, rest) → NonNegative rest)
    (hsafe : ∀ w, handleStartup S (.start shared input) = (.ok (), w) →
      Along (messageStep S) (Safe S) w (messages w.input).1) :
    (connection S shared input).1 ≠ .error .panicked := by
  have hstart : CachedRectangular (World.start shared input).conn := by
    intro name portal cached h
    cases h
  have hwp : wp (runLoop S) (fun _ _ => True) (fun e _ => e ≠ .panicked) (.start shared input) := by
    unfold runLoop
    rw [wp_bind]
    refine wp_of_forall (fun _ w hrun => ?_) fun _ _ hrun => ?_
    · have hw : Sane w := of_wp_ok (startupLoop_wp S hstart hlengths) hrun
      rw [wp_bind, wp_get, wp_bind]
      exact wp_mono (handleMessages_wp S hw (hsafe w hrun))
        (fun _ _ _ => messagesLoop_end hw.input) fun _ _ he => he
    · exact (of_wp_error (startupLoop_wp S hstart hlengths) hrun :)
  intro hpanic
  unfold connection at hpanic
  unfold wp at hwp
  split at hwp
  · next hrun =>
    rw [hrun] at hpanic
    cases hpanic
  · next e _ hrun =>
    rw [hrun] at hpanic
    cases hpanic
    exact hwp rfl

end

/-! ## Two streams -/

theorem selectMessage_nonNegative : NonNegative selectMessage := by
  have hheader : header selectMessage = some (0x51, 13, selectMessage.drop 5) := by decide +kernel
  have hend : lengthFields [] = [] := by rw [lengthFields]; rfl
  unfold NonNegative
  rw [lengthFields_of_header hheader]
  intro len hmem
  change len ∈ 13 :: lengthFields [] at hmem
  rw [hend, mem_singleton] at hmem
  omega

theorem lastPacket_plainStartup :
    lastPacket (plainStartup ++ selectMessage) = some ([0, 3, 0, 0, 0], selectMessage) := by
  decide +kernel

theorem plainStartup_input :
    (handleStartup (.bare false) (.start () (plainStartup ++ selectMessage))).2.input =
      selectMessage := by
  decide +kernel

theorem messages_selectMessage : (messages selectMessage).1 =
    [⟨0x51, [0x53, 0x45, 0x4C, 0x45, 0x43, 0x54, 0x20, 0x31, 0]⟩] := by
  decide +kernel

variable {sql : String}

/-- Services without users that answer everything. -/
theorem bare_answered (h : userDdl Host.ascii sql = none) : Answered (.bare false) sql := by
  unfold Answered
  rw [show userDdl (Services.bare false).host sql = none from h]
  exact fun _ => ⟨by simp [Services.bare], by simp [Services.bare]⟩

theorem safe_of_query {σ δ : Type} {S : Services σ δ} {m : Message}
    (htag : m.tag ≠ 0x45) (hsql : queryText m.body = .ok sql)
    (h : ∀ stmt ∈ splitSqlBatch sql, Answered S (trim stmt)) {w : World σ} : Safe S w m := by
  unfold Safe
  refine ⟨fun _ sql' hsql' stmt hstmt => .inr (.inr ?_), fun htag' => absurd htag' htag⟩
  cases hsql.symm.trans hsql'
  exact h stmt hstmt

theorem selectMessage_answered :
    ∀ stmt ∈ splitSqlBatch "SELECT 1", Answered (.bare false) (trim stmt) := by
  have hroutes : ∀ stmt ∈ splitSqlBatch "SELECT 1", userDdl Host.ascii (trim stmt) = none := by
    decide +kernel
  exact fun stmt hstmt => bare_answered (hroutes stmt hstmt)

/-- A startup and a query. -/
theorem select_never_panics :
    (connection (.bare false) () (plainStartup ++ selectMessage)).1 ≠ .error .panicked := by
  refine connection_never_panics (.bare false) () (plainStartup ++ selectMessage)
    (fun body rest h => ?_) fun w hw => ?_
  · cases lastPacket_plainStartup.symm.trans h
    exact selectMessage_nonNegative
  · have hinput := plainStartup_input
    rw [hw] at hinput
    rw [hinput, messages_selectMessage]
    have hquery : queryText [0x53, 0x45, 0x4C, 0x45, 0x43, 0x54, 0x20, 0x31, 0] =
        .ok "SELECT 1" := by decide +kernel
    exact ⟨safe_of_query (by decide) hquery selectMessage_answered, fun _ _ => trivial⟩

/-- A query with the length -1. -/
theorem negativeLength_panics :
    (connection (.bare false) () (plainStartup ++ [0x51, 0xFF, 0xFF, 0xFF, 0xFF])).1 =
      .error .panicked := by
  decide +kernel

end TensorVault.Server
