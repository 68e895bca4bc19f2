import TensorVault.Engine.Select
import TensorVault.Engine.Statement

/-!
# The answer of a plain SELECT

A query `SELECT columns FROM t WHERE …` selects rows by a mask and shows the named columns of them.
`answer` is the result that shows given rows of a table, and `executeSelect_plain` says that the
result of a plain query is the answer for the rows of its mask.
-/

namespace TensorVault

open Text Sql List

/-! ## Plain queries -/

/-- `SELECT items FROM source WHERE w`. -/
def plainSelect (items : List SelectItem) (source : String) (w : Option Expr) : SelectQuery where
  select := items
  source := source
  joins := []
  whereClause := w
  groupBy := []
  having := none
  orderBy := []
  limit := none
  distinct := false

/-- `SELECT items FROM source WHERE w LIMIT limit`. -/
def limitedSelect (items : List SelectItem) (source : String) (w : Option Expr)
    (limit : Option Nat) : SelectQuery :=
  { plainSelect items source w with limit := limit }

/-- `*`, or a column of the table. -/
def Table.Shows (t : Table) : SelectItem → Prop
  | .star => True
  | .column name => ∃ c < t.columns.length, resolveColName t name = some c
  | _ => False

/-- A list of columns of the table. -/
structure Table.ShowsAll (t : Table) (items : List SelectItem) : Prop where
  nonempty : items ≠ []
  shows : ∀ item ∈ items, t.Shows item

/-! ## Answers -/

/-- A column of an answer. -/
def answerColumn (t : Table) (name : String) (c : Nat) (texts : Option (List String))
    (rows : List Nat) : ResultColumn where
  name := name
  values := rows.map fun r => (t.cell c r).getD 0
  stringValues := texts
  typeOid := 0
  nullMask := columnNulls t c rows

/-- The columns an item shows; only a column that is named comes with its texts. -/
def answerColumns (t : Table) (rows : List Nat) : SelectItem → List ResultColumn
  | .column name =>
    let c := (resolveColName t name).getD 0
    [answerColumn t name c (columnTexts t c rows) rows]
  | .star => t.columnNames.zipIdx.map fun p => answerColumn t p.1 p.2 none rows
  | _ => []

/-- The result that shows these rows of the table. -/
def answer (t : Table) (items : List SelectItem) (rows : List Nat) : QueryResult where
  columns := items.flatMap (answerColumns t rows)
  rowCount := rows.length

/-- The rows of a table that meet a condition. -/
def Table.rowsWhere (t : Table) (p : Nat → Bool) : List Nat := (List.range t.rowCount).filter p

variable {r : Nat} {t : Table} {p : Nat → Bool}

theorem Table.mem_rowsWhere : r ∈ t.rowsWhere p ↔ r < t.rowCount ∧ p r = true := by
  simp [rowsWhere]

theorem Table.rowsWhere_congr {q : Nat → Bool}
    (h : ∀ r < t.rowCount, p r = q r) : t.rowsWhere p = t.rowsWhere q :=
  filter_congr fun r hr => h r (mem_range.mp hr)

/-! ## What the dispatcher shows -/

section

variable {t : Table} (ht : t.Rectangular) {rows : List Nat} (hrows : ∀ r ∈ rows, r < t.rowCount)

include ht in
theorem Table.Rectangular.cell_eq {c : Nat} (hc : c < t.columns.length) (hr : r < t.rowCount) :
    t.cell c r = some ((t.cell c r).getD 0) := by
  have hlen := ht.cells_at (getElem?_eq_getElem hc)
  simp [cell, getElem?_eq_getElem hc, getElem?_eq_getElem (hlen ▸ hr)]

theorem Table.Parallel.snd_lt (ht : t.Parallel) {p : String × Nat}
    (hp : p ∈ t.columnNames.zipIdx) : p.2 < t.columns.length := by
  rw [← ht.names]
  simpa using snd_lt_of_mem_zipIdx hp

include ht hrows

variable {c : Nat}

theorem columnValues_eq (hc : c < t.columns.length) :
    columnValues t c rows = some (rows.map fun r => (t.cell c r).getD 0) :=
  mapM_eq_pure fun r hr => ht.cell_eq hc (hrows r hr)

theorem namedColumn_eq {name : String} (hc : c < t.columns.length)
    (hname : resolveColName t name = some c) :
    namedColumn t name rows = .ok (answerColumn t name c (columnTexts t c rows) rows) := by
  unfold namedColumn resolveCol
  rw [hname, Outcome.ok_bind, columnValues_eq ht hrows hc]
  rfl

theorem starColumns_eq :
    starColumns t rows =
      some (t.columnNames.zipIdx.map fun p => answerColumn t p.1 p.2 none rows) := by
  refine mapM_eq_pure fun p hp => ?_
  rw [columnValues_eq ht hrows (ht.snd_lt hp)]
  rfl

theorem itemColumns_eq {item : SelectItem} (hitem : t.Shows item) :
    itemColumns t rows item = .ok (answerColumns t rows item) := by
  cases item with
  | star =>
    unfold itemColumns
    rw [starColumns_eq ht hrows]
    rfl
  | column name =>
    obtain ⟨c, hc, hname⟩ := hitem
    simp only [itemColumns, namedColumn_eq ht hrows hc hname, answerColumns, hname,
      Option.getD_some, Outcome.ok_bind, Outcome.pure_eq_ok]
  | _ => exact hitem.elim

theorem mapM_itemColumns_eq {items : List SelectItem} (hitems : t.ShowsAll items) :
    items.mapM (itemColumns t rows) = .ok (items.map (answerColumns t rows)) :=
  mapM_eq_pure fun item hitem => itemColumns_eq ht hrows (hitems.shows item hitem)

end

/-! ## Plain queries are dispatched -/

section

variable {H : Host} {K : Kernels} {t : Table} {items : List SelectItem} {source : String}
  {w : Option Expr} {limit : Option Nat} {mask : List Bool} {q : SelectQuery} {rows : List Nat}
  {cat : Catalog} {ext : QueryExtensions}

theorem Table.Shows.not_aggregate {item : SelectItem} (h : t.Shows item) :
    item.isAggregate = false ∧ item.isExpression = false := by
  cases item with
  | star | column _ => exact ⟨rfl, rfl⟩
  | _ => exact h.elim

/-- The items of a query without GROUP BY decide its shape. -/
theorem classifyQuery_shows (hgroup : q.groupBy = []) (hitems : t.ShowsAll q.select) :
    classifyQuery H q =
      match q.select with
      | [.star] => .selectStar
      | [.column _] => .selectColumn
      | _ => .selectMulti := by
  have hplain : ∀ item ∈ q.select, item.isAggregate = false ∧ item.isExpression = false :=
    fun item hitem => (hitems.shows item hitem).not_aggregate
  unfold classifyQuery
  rw [hgroup]
  generalize q.select = items at hitems hplain
  match items, hitems, hplain with
  | [], h, _ => exact absurd rfl h.nonempty
  | [.star], _, _ => rfl
  | [.column _], _, _ => rfl
  | [.aggregate ..], h, _ | [.literal _], h, _ | [.window ..], h, _ | [.expression ..], h, _ =>
    exact (h.shows _ (mem_singleton_self _)).elim
  | a :: b :: rest, _, hplain =>
    have hagg : (a :: b :: rest).any SelectItem.isAggregate = false :=
      any_eq_false.mpr fun x hx => by simp [(hplain x hx).1]
    have hexpr : (a :: b :: rest).any SelectItem.isExpression = false :=
      any_eq_false.mpr fun x hx => by simp [(hplain x hx).2]
    simp [hagg, hexpr]

/-- The rows of a mask that is long enough. -/
theorem maskRows_eq (hlen : t.rowCount ≤ mask.length) :
    maskRows t mask = .ok (t.rowsWhere fun r => mask.getD r false) := by
  unfold maskRows selectedRows
  rw [if_pos hlen]
  rfl

/-- The first rows, as many as the limit allows. -/
def limitRows (limit : Option Nat) (rows : List Nat) : List Nat :=
  rows.take (limit.getD rows.length)

theorem limitRows_none (rows : List Nat) : limitRows none rows = rows := take_length

theorem mem_of_mem_limitRows (h : r ∈ limitRows limit rows) : r ∈ rows :=
  mem_of_mem_take h

theorem orderedRows_limited {fallback : Nat} :
    orderedRows (limitedSelect items source w limit) t fallback rows =
      .ok (limitRows limit rows) := by
  simp [orderedRows, limitedSelect, plainSelect, limitRows]

theorem length_selected_le (n : Nat) (mask : List Bool) :
    ((List.range n).filter fun i => mask.getD i false).length ≤ mask.count true := by
  induction mask generalizing n with
  | nil => simp
  | cons b mask ih =>
    cases n with
    | zero => simp
    | succ n =>
      have hrest := ih n
      rw [range_succ_eq_map, filter_cons, filter_map]
      cases b <;> simpa [Function.comp_def] using hrest

theorem firstRows_eq (h : maskRows t mask = .ok rows) : firstRows t.rowCount
    (limit.getD (mask.count true)) mask = some (rows.take (limit.getD rows.length)) := by
  unfold maskRows selectedRows at h
  split at h
  · next hlen =>
    cases h
    rw [firstRows, if_pos (.inr hlen)]
    cases limit with
    | none => rw [Option.getD_none, Option.getD_none, take_length,
        take_of_length_le (length_selected_le _ _)]
    | some n => rfl
  · cases h

/-- The rows a query shows are those of its mask in the order the dispatcher gives them; `SELECT *`
is limited but not ordered. -/
theorem executeShape_shows {shown : List Nat} (ht : t.Rectangular) (hgroup : q.groupBy = [])
    (hitems : t.ShowsAll q.select) (hquery : queryMask H q t = .ok mask)
    (hrowsOf : maskRows t mask = .ok rows) (hrows : ∀ r ∈ shown, r < t.rowCount)
    (hstar : q.select = [.star] → rows.take (q.limit.getD rows.length) = shown)
    (hordered : q.select ≠ [.star] → ∀ fallback, orderedRows q t fallback rows = .ok shown) :
    executeShape H K (classifyQuery H q) q t = .ok (answer t q.select shown) := by
  have hcolumns := mapM_itemColumns_eq ht hrows hitems
  rw [classifyQuery_shows hgroup hitems]
  split
  · next hselect =>
    simp only [executeShape, hquery, firstRows_eq hrowsOf, Outcome.ofOption_some, Outcome.ok_bind,
      hstar hselect]
    rw [starColumns_eq ht hrows, hselect]
    simp [answer, answerColumns]
  · next name hselect =>
    rw [hselect] at hitems
    obtain ⟨c, hc, hname⟩ := hitems.shows _ (mem_singleton_self _)
    simp only [executeShape, hquery, hrowsOf, Outcome.ok_bind,
      hordered (by simp [hselect]), hselect]
    simp [resolveCol, hname, namedColumn_eq ht hrows hc hname, answer, answerColumns]
  · next hselect _ =>
    simp only [executeShape, hquery, hrowsOf, Outcome.ok_bind, hordered hselect, hcolumns]
    simp [answer, List.flatMap]

theorem queryMask_eq (hmask : buildFilterMask H t q.whereClause = some mask) :
    queryMask H q t = .ok mask := by
  rw [queryMask, hmask, Outcome.ofOption_some]

/-- A query with a limit shows the first rows of its mask. -/
theorem executeSelect_limited (hsource : cat.get source = some t)
    (ht : t.Rectangular) (hitems : t.ShowsAll items) (hw : w.any needsTpchFallback = false)
    (hmask : buildFilterMask H t w = some mask) (hlen : t.rowCount ≤ mask.length) :
    executeSelect H K cat (limitedSelect items source w limit) ext =
      .ok (answer t items (limitRows limit (t.rowsWhere fun r => mask.getD r false))) := by
  have hshape : classifyQuery H (limitedSelect items source w limit) ≠ .complex := by
    rw [classifyQuery_shows rfl hitems]
    split <;> simp
  have hdispatched : executeDispatched H K (limitedSelect items source w limit) t =
      some (.ok (answer t items (limitRows limit (t.rowsWhere fun r => mask.getD r false)))) := by
    unfold executeDispatched
    rw [if_neg, executeShape_shows ht rfl hitems (queryMask_eq hmask) (maskRows_eq hlen)
      (fun r hr => (Table.mem_rowsWhere.mp (mem_of_mem_limitRows hr)).1) (fun _ => rfl)
      fun _ fallback => orderedRows_limited]
    · rfl
    · simp only [hshape]
      simp [limitedSelect, plainSelect, hw]
  unfold executeSelect
  rw [if_neg (by simp [limitedSelect, plainSelect]),
    show (limitedSelect items source w limit).source = source from rfl, hsource]
  simp only [hdispatched]
  rw [if_neg (by simp [limitedSelect, plainSelect])]

/-- A plain query shows the rows of its mask. -/
theorem executeSelect_plain (hsource : cat.get source = some t)
    (ht : t.Rectangular) (hitems : t.ShowsAll items) (hw : w.any needsTpchFallback = false)
    (hmask : buildFilterMask H t w = some mask) (hlen : t.rowCount ≤ mask.length) :
    executeSelect H K cat (plainSelect items source w) ext =
      .ok (answer t items (t.rowsWhere fun r => mask.getD r false)) := by
  rw [← limitRows_none (t.rowsWhere _)]
  exact executeSelect_limited hsource ht hitems hw hmask hlen

end

/-! ## Queries with exact answers -/

/-- Every SELECT of columns of the table with this clause shows exactly these rows. -/
def SelectsExactly (H : Host) (K : Kernels) (cat : Catalog) (t : Table) (w : Expr)
    (p : Nat → Bool) : Prop :=
  ∀ items ext, t.ShowsAll items →
    executeSelect H K cat (plainSelect items t.name (some w)) ext =
      .ok (answer t items (t.rowsWhere p))

/-- What a query answers after some statements on a new engine. -/
def selectAfter (H : Host) (K : Kernels) (stmts : List String) (sql : String) :
    Option (Outcome QueryResult) := do
  let stmts ← stmts.mapM (Statement.parse H)
  let s ← Run.run (Store.step H) Store.new stmts
  pure (selectPath H K s.catalog s.indexes sql)

end TensorVault
