import TensorVault.Server.Robustness

/-!
# A portal as a cursor

Execute with a limit sends the first rows of a result and keeps the rest with the portal; further
Executes drain it. `cursor_iff`: the client is served as it expects if and only if the result has
all its cells. `slice_result` cuts NULL flags by the row count of the result, and panics where they
are shorter, as those of a UNION ALL are.
-/

namespace TensorVault.Server

variable {start stop : Nat}

open Proc List

variable {σ δ : Type} {before : List Event} {α : Type} {xs ys : List α} {i : Nat} {H : Host}

/-! ## What the client relies on -/

/-- The rows of a result as they are sent. -/
def resultRows (H : Host) (qr : QueryResult) : List (List (Option String)) :=
  (List.range qr.rowCount).map fun r => qr.columns.map (cellText H · r)

def sentRows (rows : List (List (Option String))) : List Event :=
  rows.map fun row => .sent (.dataRow row)

/-- The answers to Executes with these limits, for the rows that are left: batches up to the limit
while rows remain, and then the rest. -/
inductive Served (tag : String) : List (List (Option String)) → List Int → List Event → Prop
  | pending (rows) : Served tag rows [] []
  | suspended {batch rest limit limits answers} (hlimit : 0 < limit → batch.length ≤ limit.toNat)
    (hrest : rest ≠ []) (h : Served tag rest limits answers) :
    Served tag (batch ++ rest) (limit :: limits)
      (sentRows batch ++ .sent .portalSuspended :: answers)
  | complete {rows limit limits} (hlimit : 0 < limit → rows.length ≤ limit.toNat) :
    Served tag rows (limit :: limits) (sentRows rows ++ [.sent (.commandComplete tag)])

/-- The last message says that the portal is done. -/
def completed (log : List Event) : Bool :=
  match log.getLast? with
  | some (.sent (.commandComplete _)) => true
  | _ => false

@[simp] theorem completed_complete {rows tag} : completed
    (before ++ (sentRows rows ++ [.sent (.commandComplete tag)])) = true := by
  simp [completed, ← append_assoc]

@[simp] theorem completed_suspended {rows} : completed
    (before ++ (sentRows rows ++ [.sent .portalSuspended])) = false := by
  simp [completed, ← append_assoc]

/-- The client sends Executes up to the first CommandComplete. -/
def executeUntilComplete (S : Services σ δ) : List (List UInt8) → Handler σ Unit
  | [] => pure ()
  | buf :: bufs => do
    handleExecute S buf
    let w ← Proc.get
    if completed w.log then pure () else executeUntilComplete S bufs

/-- The bodies of Executes of one portal, with these limits. -/
def Executes (name : String) : List (List UInt8) → List Int → Prop :=
  List.Forall₂ fun buf limit => (decodeExecute buf).1 = .ok (name, limit)

/-- The engine answers a text with a result. -/
def AnswersWith (S : Services σ δ) (shared : σ) (sql : String) (qr : QueryResult) : Prop :=
  ∃ s r, S.tryReadonlySelect shared sql = some (s, r) ∧
    (r = .ok qr ∨ ∃ e s', r = .error e ∧ S.execute s sql = some (s', .ok qr))

/-- A portal that has been bound and not executed, for a text that the engine answers. -/
structure Bound (S : Services σ δ) (w : World σ) (name sql : String) (qr : QueryResult) : Prop where
  portal : ∃ portal stmt, w.conn.portals name = some portal ∧ portal.cachedResult = none ∧
    w.conn.statements portal.stmtName = some stmt ∧
    substituteParams S.overflowChecks stmt.sql portal.params = some sql
  noUser : userDdl S.host sql = none
  answers : AnswersWith S w.shared sql qr

/-! ## Slices -/

theorem getElem?_sliceList
    (h : sliceList xs start stop = some ys) (hi : start + i < stop) : ys[i]? = xs[start + i]? := by
  unfold sliceList at h
  split at h
  · cases h
    rw [getElem?_drop, getElem?_take_of_lt hi]
  · cases h

theorem cellText_slice {c c' : ResultColumn}
    (h : sliceColumn start stop c = some c') (hi : start + i < stop) :
    cellText H c' i = cellText H c (start + i) := by
  simp only [sliceColumn, Option.bind_eq_bind, Option.bind_eq_some_iff, Option.pure_def,
    Option.some.injEq] at h
  obtain ⟨values, hvalues, texts, htexts, mask, hmask, rfl⟩ := h
  have hmasked : mask.bind (·[i]?) = c.nullMask.bind (·[start + i]?) := by
    cases hc : c.nullMask <;> simp only [hc, sliceOption, Option.map_eq_some_iff] at hmask
    · cases hmask
      rfl
    · obtain ⟨ys, hys, rfl⟩ := hmask
      exact getElem?_sliceList hys hi
  simp only [cellText, hmasked, getD_eq_getElem?_getD, getElem?_sliceList hvalues hi]
  cases hc : c.stringValues <;> simp only [hc, sliceOption, Option.map_eq_some_iff] at htexts
  · cases htexts
    rfl
  · obtain ⟨ys, hys, rfl⟩ := htexts
    simp only [getElem?_sliceList hys hi]

variable {qr batch : QueryResult}

/-- The rows of a slice are rows of the result. -/
theorem resultRows_slice (hstop : stop ≤ qr.rowCount) (h : sliceResult qr start stop = some batch) :
    resultRows H batch = ((resultRows H qr).take stop).drop start := by
  simp only [sliceResult, Option.bind_eq_bind, Option.bind_eq_some_iff, Option.pure_def,
    Option.some.injEq, Nat.min_eq_left hstop] at h
  obtain ⟨columns, hcolumns, rfl⟩ := h
  have hdrop : (List.range stop).drop start = (List.range (stop - start)).map (start + ·) := by
    rw [range_eq_range', drop_range', Nat.zero_add, range'_eq_map_range]
    simp
  simp only [resultRows, ← map_take, ← map_drop, take_range, Nat.min_eq_left hstop,
    hdrop, map_map, show stop - min start qr.rowCount = stop - start by omega]
  refine map_congr_left fun r hr => ?_
  rw [mem_range] at hr
  rw [Nat.min_eq_left (by omega)] at hcolumns
  exact (of_mapM_eq_some hcolumns).2 fun _ _ hc => cellText_slice hc (by omega)

theorem le_length_of_sliceList (h : sliceList xs start stop = some ys) : stop ≤ xs.length := by
  unfold sliceList at h
  split at h
  · next hle => exact hle.2
  · cases h

theorem le_length_of_sliceOption {xs ys : Option (List α)}
    (h : sliceOption xs start stop = some ys) : ∀ zs, xs = some zs → stop ≤ zs.length := by
  rintro zs rfl
  obtain ⟨_, hzs, _⟩ := Option.map_eq_some_iff.mp (show Option.map some _ = _ from h)
  exact le_length_of_sliceList hzs

/-- A slice up to the last row needs all cells. -/
theorem rectangular_of_slice
    (h : sliceResult qr start qr.rowCount = some batch) : Rectangular qr := by
  simp only [sliceResult, Option.bind_eq_bind, Option.bind_eq_some_iff, Nat.min_self] at h
  obtain ⟨columns, hcolumns, -⟩ := h
  intro c hc
  obtain ⟨c', hc'⟩ := (of_mapM_eq_some hcolumns).1 c hc
  simp only [sliceColumn, Option.bind_eq_bind, Option.bind_eq_some_iff] at hc'
  obtain ⟨_, hvalues, _, htexts, _, hmask, -⟩ := hc'
  exact ⟨le_length_of_sliceList hvalues, le_length_of_sliceOption htexts,
    le_length_of_sliceOption hmask⟩

/-! ## Draining -/

section

variable {S : Services σ δ} {name tag : String} {qr : QueryResult} {Q : Unit → World σ → Prop}
  {E : Stop → World σ → Prop} {w : World σ} {offset : Nat}

theorem wp_sendDataRows : wp (sendDataRows H qr) Q E w ↔
      Q () { w with log := w.log ++ sentRows (resultRows H qr) } := by
  rw [sendDataRows, wp_sendRows, sentRows, resultRows, map_map]
  rfl

/-- The portal keeps the result, and rows are left. -/
structure Draining (w : World σ) (name tag : String) (qr : QueryResult) (offset : Nat) : Prop where
  lt : offset < qr.rowCount
  portal : ∃ portal, w.conn.portals name = some portal ∧
    portal.cachedResult = some { result := qr, tag } ∧ portal.cachedOffset = offset

/-- One more Execute. -/
theorem wp_handleExecute_drain (hw : Draining w name tag qr offset) {buf : List UInt8}
    {limit : Int} (hbuf : (decodeExecute buf).1 = .ok (name, limit))
    (hpanic : ∀ stop, offset ≤ stop → sliceResult qr offset stop = none → E .panicked w)
    (hsent : ∀ stop batch, offset ≤ stop → stop ≤ qr.rowCount →
      (0 < limit → stop ≤ offset + limit.toNat) → (¬ 0 < limit → stop = qr.rowCount) →
      sliceResult qr offset stop = some batch → ∀ w',
      (w'.log = w.log ++ (sentRows (resultRows S.host batch) ++ [.sent (.commandComplete tag)]) ∧
        stop = qr.rowCount ∨
      w'.log = w.log ++ (sentRows (resultRows S.host batch) ++ [.sent .portalSuspended]) ∧
        Draining w' name tag qr stop) → Q () w') : wp (handleExecute S buf) Q E w := by
  obtain ⟨portal, hportal, hcached, hoffset⟩ := hw.portal
  unfold handleExecute decodeBody
  simp only [hbuf, wp_bind, wp_pure, wp_get, hportal, hcached, drainPortal, hoffset]
  set stop := drainEnd portal { result := qr, tag } limit with hstop
  have hle : stop ≤ qr.rowCount := Nat.min_le_right _ _
  have hge : offset ≤ stop := by
    rw [hstop, drainEnd, hoffset]
    exact Nat.le_min.mpr ⟨Nat.le_add_right _ _, hw.lt.le⟩
  have hlimit : 0 < limit → stop ≤ offset + limit.toNat := fun hpos => by
    rw [hstop, drainEnd, if_pos hpos, hoffset]
    exact Nat.min_le_left _ _
  have hall : ¬ 0 < limit → stop = qr.rowCount := fun hnot => by
    rw [hstop, drainEnd, if_neg hnot]
    exact Nat.min_eq_right (Nat.le_add_left _ _)
  cases hslice : sliceResult qr offset stop with
  | none =>
    exact hpanic stop hge hslice
  | some batch =>
    rw [orPanic, wp_pure, wp_sendDataRows]
    split
    · next hend =>
      simp only [wp_bind, wp_send, setPortals, wp_modify]
      exact hsent stop batch hge hle hlimit hall hslice _ (.inl ⟨by simp, Nat.le_antisymm hle hend⟩)
    · next hmore =>
      simp only [wp_bind, wp_send, setPortals, wp_modify]
      refine hsent stop batch hge hle hlimit hall hslice _
        (.inr ⟨by simp, Nat.lt_of_not_le hmore, ?_⟩)
      exact ⟨_, if_pos rfl, rfl, rfl⟩

theorem served_drop {rows : List (List (Option String))} (hge : offset ≤ stop)
    (hle : stop ≤ rows.length) :
    rows.drop offset = (rows.take stop).drop offset ++ rows.drop stop ∧
      ((rows.take stop).drop offset).length = stop - offset := by
  refine ⟨?_, by simp [Nat.min_eq_left hle]⟩
  have hlen : offset ≤ (rows.take stop).length := by simpa [Nat.min_eq_left hle] using hge
  rw [← drop_append_of_le_length hlen, take_append_drop]

theorem wp_executeUntilComplete_drain (hrect : Rectangular qr) {bufs : List (List UInt8)}
    {limits : List Int} (hbufs : Executes name bufs limits) (hw : Draining w name tag qr offset) :
    wp (executeUntilComplete S bufs) (fun _ w' => ∃ answers, w'.log = w.log ++ answers ∧
      Served tag ((resultRows S.host qr).drop offset) limits answers) (fun _ _ => False) w := by
  induction hbufs generalizing w offset with
  | nil => exact ⟨[], (append_nil _).symm, .pending _⟩
  | @cons buf limit bufs limits hbuf _ ih =>
    unfold executeUntilComplete
    rw [wp_bind]
    refine wp_handleExecute_drain hw hbuf (fun stop hge hnone => ?_)
      fun stop batch hge hle hlimit _ hslice w' hw' => ?_
    · have hlt := hw.lt
      exact sliceResult_ne_none hrect (by omega) hnone
    have hlen : (resultRows S.host qr).length = qr.rowCount := by simp [resultRows]
    obtain ⟨hsplit, hbatch⟩ := served_drop hge (hle.trans hlen.ge)
    rw [← resultRows_slice hle hslice] at hsplit hbatch
    rw [wp_bind, wp_get, hsplit]
    have hlimit' : 0 < limit → (resultRows S.host batch).length ≤ limit.toNat := fun hpos => by
      omega
    rcases hw' with ⟨hlog, rfl⟩ | ⟨hlog, hdraining⟩
    · rw [if_pos (by simp [hlog]), wp_pure, drop_eq_nil_of_le hlen.le, append_nil]
      exact ⟨_, hlog, .complete hlimit'⟩
    · rw [if_neg (by simp [hlog])]
      refine wp_mono (ih hdraining) (fun _ w'' ⟨answers, hanswers, hserved⟩ => ?_) fun _ _ h => h
      refine ⟨_, ?_, .suspended hlimit' (fun hnil => ?_) hserved⟩
      · rw [hanswers, hlog]
        simp
      · have hlt := hdraining.lt
        rw [drop_eq_nil_iff] at hnil
        omega

end

/-! ## The first Execute -/

section

variable {S : Services σ δ} {name sql : String} {qr : QueryResult} {w : World σ}
  {E : Stop → World σ → Prop}

theorem wp_runSql (h : AnswersWith S w.shared sql qr)
    {Q : Except Error QueryResult → World σ → Prop}
    (hQ : ∀ shared, Q (.ok qr) { w with shared, log := w.log ++ [.passed sql] }) :
    wp (runSql S sql) Q E w := by
  obtain ⟨s, r, hreadonly, hr⟩ := h
  unfold runSql askEngine record
  simp only [wp_bind, wp_modify]
  unfold callPanic wp
  rcases hr with rfl | ⟨e, s', rfl, hexecute⟩
  · simp only [hreadonly]
    exact hQ s
  · simp only [hreadonly, hexecute]
    exact hQ s'

theorem wp_handleExecute_first (hb : Bound S w name sql qr) {buf : List UInt8} {limit : Int}
    (hbuf : (decodeExecute buf).1 = .ok (name, limit)) {Q : Unit → World σ → Prop}
    (hpanic : 0 < limit → limit.toNat < qr.rowCount →
      sliceResult qr 0 limit.toNat = none → ∀ w', E .panicked w')
    (hpart : ∀ batch, 0 < limit → limit.toNat < qr.rowCount →
      sliceResult qr 0 limit.toNat = some batch → ∀ w', w'.log = w.log ++ [.passed sql] ++
        (sentRows (resultRows S.host batch) ++ [.sent .portalSuspended]) →
      Draining w' name (commandTag S.host qr sql) qr limit.toNat → Q () w')
    (hwhole : (0 < limit → qr.rowCount ≤ limit.toNat) → ∀ w', w'.log = w.log ++ [.passed sql] ++
      (sentRows (resultRows S.host qr) ++ [.sent (.commandComplete (commandTag S.host qr sql))]) →
      Q () w') : wp (handleExecute S buf) Q E w := by
  obtain ⟨portal, stmt, hportal, hcached, hstmt, hsql⟩ := hb.portal
  unfold handleExecute decodeBody
  simp only [hbuf, wp_bind, wp_pure, wp_get, hportal, hcached, hstmt, executePortal, hsql, orPanic,
    tryHandleUserDdl, hb.noUser]
  refine wp_runSql hb.answers fun shared => ?_
  unfold answerExecute
  dsimp only
  split
  · next hlimit =>
    cases hslice : sliceResult qr 0 limit.toNat with
    | none =>
      exact hpanic hlimit.1 hlimit.2 hslice _
    | some batch =>
      simp only [wp_bind, orPanic, wp_pure, wp_sendDataRows, wp_send, setPortals, wp_modify]
      exact hpart batch hlimit.1 hlimit.2 hslice _ (by simp) ⟨hlimit.2, _, if_pos rfl, rfl, rfl⟩
  · next hlimit =>
    simp only [wp_bind, wp_sendDataRows, wp_send]
    exact hwhole (fun hpos => Nat.le_of_not_lt fun hlt => hlimit ⟨hpos, hlt⟩) _ (by simp)

/-- **The cursor.** All Executes up to the first CommandComplete are served from one execution, if
and only if the result has all its cells or fits into one row. -/
theorem cursor_iff (hb : Bound S w name sql qr)
    (hnamed : ∀ limit ∈ [0, 1], ∃ buf, (decodeExecute buf).1 = .ok (name, limit)) :
    (∀ buf bufs limits, Executes name (buf :: bufs) limits → ∃ w' answers,
      executeUntilComplete S (buf :: bufs) w = (.ok (), w') ∧
      w'.log = w.log ++ .passed sql :: answers ∧
      Served (commandTag S.host qr sql) (resultRows S.host qr) limits answers) ↔
    qr.rowCount ≤ 1 ∨ Rectangular qr := by
  constructor
  · intro hserved
    by_contra hnot
    rw [not_or, Nat.not_le] at hnot
    -- the first row, and then all others
    obtain ⟨none_, hnone⟩ := hnamed 0 (by simp)
    obtain ⟨one, hone⟩ := hnamed 1 (by simp)
    obtain ⟨w', -, hrun, -⟩ := hserved one [none_] [1, 0] (.cons hone (.cons hnone .nil))
    have hwp : wp (executeUntilComplete S [one, none_]) (fun _ _ => Rectangular qr)
        (fun _ _ => True) w := by
      unfold executeUntilComplete
      rw [wp_bind]
      refine wp_handleExecute_first hb hone (fun _ _ _ _ => trivial)
        (fun batch _ _ _ w₁ hlog hdrain => ?_)
        fun hall => absurd (hall Int.one_pos) (Nat.not_le_of_lt hnot.1)
      rw [wp_bind, wp_get, if_neg (by rw [hlog, completed_suspended]; decide)]
      unfold executeUntilComplete
      rw [wp_bind]
      refine wp_handleExecute_drain hdrain hnone (fun _ _ _ => trivial)
        fun stop batch _ _ _ hall hslice _ _ => ?_
      rw [hall (lt_irrefl 0)] at hslice
      exact absurd (rectangular_of_slice hslice) hnot.2
    exact hnot.2 (of_wp_ok hwp hrun)
  · rintro hcells buf bufs _ (_ | ⟨hbuf, hbufs⟩)
    next limit limits =>
    have hlen : (resultRows S.host qr).length = qr.rowCount := by simp [resultRows]
    have hwp : wp (executeUntilComplete S (buf :: bufs)) (fun _ w' => ∃ answers,
        w'.log = w.log ++ .passed sql :: answers ∧
        Served (commandTag S.host qr sql) (resultRows S.host qr) (limit :: limits) answers)
        (fun _ _ => False) w := by
      unfold executeUntilComplete
      rw [wp_bind]
      -- only the first rows: the rest has at least one more
      have hrect : 0 < limit → limit.toNat < qr.rowCount → Rectangular qr := fun hpos hlt =>
        hcells.resolve_left (by omega)
      refine wp_handleExecute_first hb hbuf (fun hpos hlt hnone _ =>
          sliceResult_ne_none (hrect hpos hlt) (by omega) hnone)
        (fun batch hpos hlt hslice w₁ hlog hdrain => ?_) fun hall w₁ hlog => ?_
      · obtain ⟨hsplit, hbatch⟩ := served_drop (Nat.zero_le _) (hlt.le.trans hlen.ge)
        rw [← resultRows_slice hlt.le hslice] at hsplit hbatch
        rw [wp_bind, wp_get, if_neg (by rw [hlog, completed_suspended]; decide)]
        refine wp_mono (wp_executeUntilComplete_drain (hrect hpos hlt) hbufs hdrain)
          (fun _ w₂ ⟨answers, hanswers, hserved⟩ => ?_) fun _ _ h => h
        rw [← drop_zero (l := resultRows S.host qr), hsplit]
        refine ⟨_, ?_, .suspended (fun _ => hbatch.le) (fun hnil => ?_) hserved⟩
        · simp [hanswers, hlog]
        · rw [drop_eq_nil_iff] at hnil
          omega
      · rw [wp_bind, wp_get, if_pos (by rw [hlog, completed_complete])]
        exact ⟨_, by simpa using hlog, .complete fun hpos => hlen.trans_le (hall hpos)⟩
    rcases hrun : executeUntilComplete S (buf :: bufs) w with ⟨_ | ⟨⟩, w'⟩
    · exact (of_wp_error hwp hrun).elim
    · obtain ⟨answers, hlog, hserved⟩ := of_wp_ok hwp hrun
      exact ⟨w', answers, rfl, hlog, hserved⟩

/-! ## Two results -/

/-- Services that answer every text with one result. -/
def Services.answering (qr : QueryResult) : Services Unit Unit :=
  { Services.bare false with tryReadonlySelect := fun _ _ => some ((), .ok qr) }

/-- After Parse and Bind of the unnamed statement. -/
def boundWorld (sql : String) : World Unit where
  conn := { PgConn.new with
    statements := fun _ => some { sql, paramOids := [] }
    portals := fun _ => some (.new "" [] []) }
  shared := ()
  input := []
  log := []

theorem bound_boundWorld (hsql : substituteParams false sql [] = some sql)
    (huser : userDdl Host.ascii sql = none) : Bound (.answering qr) (boundWorld sql) "" sql qr :=
  ⟨⟨_, _, rfl, rfl, rfl, hsql⟩, huser, (), _, rfl, .inl rfl⟩

/-- One column with this NULL mask. -/
def maskedResult (values : List UInt64) (nullMask : Option (List Bool)) : QueryResult :=
  { columns := [⟨"a", values, none, 20, nullMask⟩], rowCount := values.length }

def executeOne : List UInt8 := [0, 0, 0, 0, 1]

def executeAll : List UInt8 := [0, 0, 0, 0, 0]

theorem named_unnamed : ∀ limit ∈ [0, 1], ∃ buf,
    (decodeExecute buf).1 = .ok ("", (limit : Int)) := by
  simp only [forall_mem_cons]
  exact ⟨⟨executeAll, by decide +kernel⟩, ⟨executeOne, by decide +kernel⟩, forall_mem_nil _⟩

def unionAllText : String := "SELECT a FROM t UNION ALL SELECT a FROM u"

theorem bound_unionAll (qr : QueryResult) :
    Bound (.answering qr) (boundWorld unionAllText) "" unionAllText qr :=
  bound_boundWorld (by decide +kernel) (by decide +kernel)

theorem cursor_masked : ∃ qr, qr = maskedResult [0, 7] (some [true, false]) ∧
    ∃ w' answers, executeUntilComplete (.answering qr) [executeOne, executeAll]
        (boundWorld unionAllText) = (.ok (), w') ∧ w'.log = [] ++ .passed unionAllText :: answers ∧
      Served "SELECT 2" (resultRows Host.ascii qr) [1, 0] answers :=
  ⟨_, rfl, by
    have h := (cursor_iff (bound_unionAll (maskedResult [0, 7] (some [true, false])))
      named_unnamed).mpr (.inr (by simp [Rectangular, maskedResult])) executeOne [executeAll] [1, 0]
        (.cons (by decide +kernel) (.cons (by decide +kernel) .nil))
    rwa [show commandTag (Services.answering _).host (maskedResult [0, 7] (some [true, false]))
      unionAllText = "SELECT 2" by decide +kernel] at h⟩

/-- A NULL in the first part of a UNION ALL: the second Execute panics. -/
theorem cursor_unionAll_panics : ∃ qr, qr = concatenateResults (maskedResult [0] (some [true]))
      (maskedResult [7] none) ∧
    Bound (.answering qr) (boundWorld unionAllText) "" unionAllText qr ∧
    (executeUntilComplete (.answering qr) [executeOne, executeAll] (boundWorld unionAllText)).1 =
      .error .panicked :=
  ⟨_, rfl, bound_unionAll _, by decide +kernel⟩

end

end TensorVault.Server
