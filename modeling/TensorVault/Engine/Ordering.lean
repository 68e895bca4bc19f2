import TensorVault.Engine.Answer
import TensorVault.Lib.Sorting

/-!
# ORDER BY in the dispatcher and in the basic executor

What ORDER BY means is `Table.keysLe`: all keys, integers signed, strings as texts. Both executors
sort by the first key only and by unsigned cells; the dispatcher takes the texts of a string column,
the basic executor their hashes, and it sorts after the limit has been applied. `SELECT *` is not
sorted by the dispatcher at all.
-/

namespace TensorVault

variable {α : Type}

open Text Sql Sorting List Function

/-! ## Values of keys -/

/-- A value to sort by. -/
inductive SortValue where
  | int (n : Int)
  | text (s : String)
  deriving DecidableEq, Repr

namespace SortValue

/-- The order of values; an integer comes before a text. -/
def le : SortValue → SortValue → Bool
  | int a, int b => decide (a ≤ b)
  | text a, text b => decide (a ≤ b)
  | int _, text _ => true
  | text _, int _ => false

/-- The order of the dispatcher: cells of integers as unsigned numbers, texts as texts. -/
def unsignedLe : SortValue → SortValue → Bool
  | int a, int b => decide ((cellOfInt a).toNat ≤ (cellOfInt b).toNat)
  | a, b => le a b

theorem le_totalPreorder : TotalPreorder le where
  trans a b c hab hbc := by
    cases a <;> cases b <;> cases c <;> simp only [le, decide_eq_true_eq, Bool.false_eq_true] at *
    · exact Int.le_trans hab hbc
    · exact String.le_trans hab hbc
  total a b := by
    cases a <;> cases b <;>
      simp only [le, Bool.or_eq_true, decide_eq_true_eq, Bool.true_or, Bool.or_true]
    · exact Int.le_total _ _
    · exact String.le_total _ _

/-- The value with the number of its cell for an integer. -/
def unsigned : SortValue → SortValue
  | int a => int (cellOfInt a).toNat
  | text s => text s

theorem unsignedLe_eq (a b : SortValue) : unsignedLe a b = le a.unsigned b.unsigned := by
  cases a <;> cases b <;> simp [unsignedLe, unsigned, le]

theorem unsignedLe_totalPreorder : TotalPreorder unsignedLe where
  trans a b c hab hbc := by
    rw [unsignedLe_eq] at *
    exact le_totalPreorder.trans _ _ _ hab hbc
  total a b := by
    rw [unsignedLe_eq, unsignedLe_eq]
    exact le_totalPreorder.total _ _

end SortValue

namespace Table

variable (t : Table)

/-- The value of a column in a row: its text, or else its cell as a signed number. -/
def sortValue (c r : Nat) : SortValue :=
  match t.sidecar c with
  | some texts => .text (texts.getD r "")
  | none => .int (signedOf ((t.cell c r).getD 0))

/-- The keys of an ORDER BY, as functions of the row. -/
def sortKeys (orderBy : List (String × Bool)) : List ((Nat → SortValue) × Bool) :=
  orderBy.map fun p => (t.sortValue ((resolveColName t p.1).getD 0), p.2)

/-- The order ORDER BY asks for. -/
def keysLe (orderBy : List (String × Bool)) : Nat → Nat → Bool :=
  lexOn SortValue.le (t.sortKeys orderBy)

/-- The order of the dispatcher; nothing is sorted for `SELECT *`. -/
def dispatchLe (items : List SelectItem) (orderBy : List (String × Bool)) : Nat → Nat → Bool :=
  lexOn SortValue.unsignedLe
    (match items with
    | [.star] => []
    | _ => t.sortKeys (orderBy.take 1))

/-- The order of the basic executor: cells as unsigned numbers, also those of texts. -/
def basicLe (orderBy : List (String × Bool)) : Nat → Nat → Bool :=
  lexOn (fun a b : Nat => decide (a ≤ b)) ((orderBy.take 1).map fun p =>
    (fun r => ((t.cell ((resolveColName t p.1).getD 0) r).getD 0).toNat, p.2))

/-- The names of an ORDER BY are columns of the table. -/
def OrdersBy (orderBy : List (String × Bool)) : Prop :=
  ∀ p ∈ orderBy, ∃ c < t.columns.length, resolveColName t p.1 = some c

end Table

variable {ascending : Bool} {l : List α} {r : α → α → Bool} {qr : QueryResult}

theorem lexOn_single {κ : Type} {le : κ → κ → Bool} {key : α → κ} {a b : α} :
    lexOn le [(key, ascending)] a b = directed le ascending (key a) (key b) := by
  simp only [lexOn]
  cases directed le ascending (key a) (key b) <;> simp

theorem cellOfInt_signedOf {c : UInt64} : cellOfInt (signedOf c) = c := by
  have hc := c.toNat_lt
  apply UInt64.toNat_inj.mp
  rw [cellOfInt, UInt64.toNat_ofNat', signedOf]
  split <;> omega

theorem mergeSort_congr {s : α → α → Bool} (h : ∀ a ∈ l, ∀ b ∈ l, r a b = s a b) :
    l.mergeSort r = l.mergeSort s := by
  have hmap := map_mergeSort (f := id) h
  rwa [map_id, map_id] at hmap

theorem mergeSort_true (l : List α) : l.mergeSort (fun _ _ => true) = l :=
  mergeSort_of_pairwise (pairwise_of_forall fun _ _ => rfl)

theorem mergeSort_short (h : l.length ≤ 1) : l.mergeSort r = l := by
  match l, h with
  | [], _ => exact mergeSort_nil
  | [a], _ => exact mergeSort_singleton a

/-! ## The dispatcher -/

/-- `SELECT items FROM source WHERE w ORDER BY orderBy LIMIT limit`. -/
def orderedSelect (items : List SelectItem) (source : String) (w : Option Expr)
    (orderBy : List (String × Bool)) (limit : Option Nat) : SelectQuery :=
  { plainSelect items source w with orderBy := orderBy, limit := limit }

section

variable {H : Host} {K : Kernels} {t : Table} {items : List SelectItem} {source : String}
  {w : Option Expr} {orderBy : List (String × Bool)} {limit : Option Nat} {rows : List Nat}

/-- One column of the table sorts the rows as the dispatcher compares its values. -/
theorem orderRows_eq {c : Nat} (hc : c < t.columns.length) :
    orderRows t c ascending rows = some (rows.mergeSort
      (lexOn SortValue.unsignedLe [(t.sortValue c, ascending)])) := by
  have hcode : lexOn SortValue.unsignedLe [(t.sortValue c, ascending)] = fun a b =>
      directed SortValue.unsignedLe ascending (t.sortValue c a) (t.sortValue c b) :=
    funext₂ fun a b => lexOn_single
  rw [hcode]
  unfold orderRows orderRows.sortBy
  cases hside : t.sidecar c with
  | some texts =>
    have hvalue : ∀ r, t.sortValue c r = .text (texts.getD r "") := fun r => by
      rw [Table.sortValue, hside]
    simp only [hvalue, directed, SortValue.unsignedLe, SortValue.le]
    congr 2
    funext a b
    cases ascending <;> simp [← decide_not]
  | none =>
    have hvalue : ∀ r, t.sortValue c r = .int (signedOf ((t.columns[c]).getD r 0)) := fun r => by
      rw [Table.sortValue, hside]
      simp [Table.cell, getElem?_eq_getElem hc, getD_eq_getElem?_getD]
    simp only [hvalue, directed, SortValue.unsignedLe, cellOfInt_signedOf,
      getElem?_eq_getElem hc, Option.map_some]
    congr 2
    funext a b
    cases ascending <;> simp [← decide_not, UInt64.lt_iff_toNat_lt]

/-- The rows of the dispatcher, for a query other than `SELECT *`. -/
theorem orderedRows_eq (hkeys : t.OrdersBy orderBy) {fallback : Nat} :
    orderedRows (orderedSelect items source w orderBy limit) t fallback rows =
      .ok ((rows.mergeSort (lexOn SortValue.unsignedLe (t.sortKeys (orderBy.take 1)))).take
        (limit.getD rows.length)) := by
  cases orderBy with
  | nil =>
    have hsort : rows.mergeSort (lexOn SortValue.unsignedLe (t.sortKeys ([].take 1))) = rows :=
      mergeSort_true rows
    simp only [orderedRows, orderedSelect, Outcome.pure_eq_ok, Outcome.ok_bind, hsort]
  | cons p rest =>
    obtain ⟨name, ascending⟩ := p
    obtain ⟨c, hc, hname⟩ := hkeys _ mem_cons_self
    have hsort : t.sortKeys (((name, ascending) :: rest).take 1) =
        [(t.sortValue c, ascending)] := by
      simp [Table.sortKeys, hname]
    simp only [orderedRows, orderedSelect, hname, Option.getD_some, orderRows_eq hc, hsort,
      Outcome.ofOption_some, Outcome.ok_bind, Outcome.pure_eq_ok, length_mergeSort]

/-- The dispatcher returns the first rows of a stable sort by `dispatchLe`. -/
theorem executeShape_ordered {mask : List Bool} (ht : t.WellFormed) (hitems : t.ShowsAll items)
    (hkeys : t.OrdersBy orderBy) (hmask : buildFilterMask H t w = some mask)
    (hlen : t.rowCount ≤ mask.length) :
    executeShape H K (classifyQuery H (orderedSelect items source w orderBy limit))
        (orderedSelect items source w orderBy limit) t =
      .ok (answer t items (((t.rowsWhere fun r => mask.getD r false).mergeSort
        (t.dispatchLe items orderBy)).take
          (limit.getD (t.rowsWhere fun r => mask.getD r false).length))) := by
  have hrows : ∀ n, ∀ r ∈ ((t.rowsWhere fun r => mask.getD r false).mergeSort
      (t.dispatchLe items orderBy)).take n, r < t.rowCount := fun _ r hr =>
    (Table.mem_rowsWhere.mp (mem_mergeSort.mp (mem_of_mem_take hr))).1
  refine executeShape_shows ht.rectangular rfl hitems (queryMask_eq hmask) (maskRows_eq hlen)
    (hrows _) (fun hstar => ?_) fun hstar fallback => ?_
  · obtain rfl : items = [.star] := hstar
    rw [show ∀ rows : List Nat, rows.mergeSort (t.dispatchLe [.star] orderBy) = rows from
      mergeSort_true]
    rfl
  · have hcode : t.dispatchLe items orderBy =
        lexOn SortValue.unsignedLe (t.sortKeys (orderBy.take 1)) := by
      unfold Table.dispatchLe
      split
      · exact (hstar rfl).elim
      · rfl
    rw [orderedRows_eq hkeys, hcode]

end

/-! ## The basic executor -/

/-- The names and cells of a result, without texts and NULL flags. -/
def QueryResult.cells (qr : QueryResult) : List (String × List UInt64) :=
  qr.columns.map fun c => (c.name, c.values)

/-- The rows of a result, as cells. -/
def QueryResult.rows (qr : QueryResult) : List (List UInt64) := (List.range qr.rowCount).map qr.row

/-- The rows of a result with one row for each of some items. -/
theorem QueryResult.rows_of_columns {items : List α} {fs : List (α → UInt64)}
    (hcolumns : qr.columns.map ResultColumn.values = fs.map fun f => items.map f)
    (hcount : qr.rowCount = items.length) : qr.rows = items.map fun a => fs.map fun f => f a := by
  refine ext_getElem (by simp [rows, hcount]) fun i h₁ h₂ => ?_
  have hi : i < items.length := by simpa using h₂
  have hrow : qr.row i = (qr.columns.map ResultColumn.values).map (·.getD i 0) := by simp [row]
  simp only [rows, getElem_map, getElem_range]
  rw [hrow, hcolumns, map_map]
  exact map_congr_left fun f _ => by simp [hi]

theorem QueryResult.rows_congr {a b : QueryResult} (hcells : a.cells = b.cells)
    (hcount : a.rowCount = b.rowCount) : a.rows = b.rows := by
  have hrow : ∀ qr : QueryResult, qr.row = fun r => qr.cells.map (·.2.getD r 0) := fun qr => by
    funext r
    simp [row, cells]
  rw [rows, rows, hrow a, hrow b, hcells, hcount]

/-- The columns of the table that an item shows, under their names in the result. -/
def Table.shown (t : Table) : SelectItem → List (String × Nat)
  | .column name => [(name, (resolveColName t name).getD 0)]
  | .star => t.columnNames.zipIdx
  | _ => []

/-- The basic executor knows a column by its exact name only. -/
structure Table.ShowsExactly (t : Table) (items : List SelectItem) : Prop extends
    t.ShowsAll items where
  exactly : ∀ name, SelectItem.column name ∈ items → (t.columnIdx name).isSome = true

section

variable {rows : List Nat} {name : String} {H : Host} {K : Kernels} {t : Table}
  {items : List SelectItem} {source : String} {orderBy : List (String × Bool)} {limit : Option Nat}
  {p : String × Nat} {wc : WhereClause} {ext : QueryExtensions}

theorem cells_answer : (answer t items rows).cells =
    (items.flatMap t.shown).map fun p => (p.1, rows.map fun r => (t.cell p.2 r).getD 0) := by
  unfold QueryResult.cells answer
  rw [map_flatMap, map_flatMap]
  refine flatMap_congr fun item _ => ?_
  cases item <;> simp [answerColumns, Table.shown, answerColumn, comp_def]

theorem resolveColName_of_columnIdx {c : Nat} (h : t.columnIdx name = some c) :
    resolveColName t name = some c := by
  rw [resolveColName, h]

theorem findIdx?_of_find?_zipIdx {names : List String} :
    ∀ k, (names.zipIdx k).find? (·.1 == name) = some p →
      ∃ i, names.findIdx? (· == name) = some i ∧ p.2 = i + k := by
  induction names with
  | nil => exact fun _ h => nomatch h
  | cons n names ih =>
    intro k h
    rw [zipIdx_cons, find?_cons] at h
    rw [findIdx?_cons]
    cases hn : n == name with
    | true =>
      simp only [hn] at h
      cases h
      exact ⟨0, rfl, (Nat.zero_add k).symm⟩
    | false =>
      simp only [hn] at h
      obtain ⟨i, hi, hp⟩ := ih (k + 1) h
      exact ⟨i + 1, by simp [hi], by omega⟩

theorem columnIdx_of_find?_zipIdx
    (h : t.columnNames.zipIdx.find? (·.1 == name) = some p) : t.columnIdx name = some p.2 := by
  obtain ⟨i, hi, hp⟩ := findIdx?_of_find?_zipIdx 0 h
  rw [Table.columnIdx, hi, hp, Nat.add_zero]

/-- A name of the result stands for the column of the table with this name. -/
theorem find?_shown (h : (items.flatMap t.shown).find? (·.1 == name) = some p) :
    p = (name, (resolveColName t name).getD 0) := by
  have hname : p.1 = name := by simpa using find?_some h
  rw [find?_flatMap] at h
  obtain ⟨item, _, hitem⟩ := exists_of_findSome?_eq_some h
  cases item with
  | column n =>
    simp only [Table.shown, find?_cons, find?_nil] at hitem
    split at hitem
    · next heq =>
      cases hitem
      rw [eq_of_beq heq]
    · exact nomatch hitem
  | star =>
    rw [resolveColName_of_columnIdx (columnIdx_of_find?_zipIdx hitem), Option.getD_some, ← hname]
  | _ => exact nomatch hitem

theorem mapM_getElem? {cells : List UInt64} {order : List Nat} (h : ∀ i ∈ order, i < cells.length) :
    order.mapM (fun i => cells[i]?) = some (order.map fun i => cells.getD i 0) :=
  mapM_eq_pure fun i hi => by simp [h i hi]

theorem getD_map_cell {i : Nat} (h : i < rows.length) {f : Nat → UInt64} :
    (rows.map f).getD i 0 = f (rows.getD i 0) := by
  simp [h]

theorem range_map_getD : (List.range rows.length).map (rows.getD · 0) = rows :=
  ext_getElem (by simp) fun i h₁ h₂ => by simp [h₂]

/-- The column of the result that a name of the table stands for. -/
theorem find?_columns (hcells : qr.cells = (answer t items rows).cells)
    (hname : name ∈ (items.flatMap t.shown).map (·.1)) :
    ∃ key, qr.columns.find? (·.name == name) = some key ∧
      key.values = rows.map fun r => (t.cell ((resolveColName t name).getD 0) r).getD 0 := by
  rw [cells_answer] at hcells
  obtain ⟨p, hp⟩ : ∃ p, (items.flatMap t.shown).find? (·.1 == name) = some p := by
    obtain ⟨q, hq, rfl⟩ := mem_map.mp hname
    exact Option.isSome_iff_exists.mp (find?_isSome.mpr ⟨q, hq, beq_self_eq_true _⟩)
  have hfind := congrArg (List.find? (·.1 == name)) hcells
  rw [QueryResult.cells, find?_map, find?_map] at hfind
  simp only [comp_def, hp, Option.map_some] at hfind
  obtain ⟨key, hkey, hvalue⟩ := Option.map_eq_some_iff.mp hfind
  rw [find?_shown hp] at hvalue
  exact ⟨key, hkey, congrArg Prod.snd hvalue⟩

theorem length_values {c : ResultColumn}
    (hcells : qr.cells = (answer t items rows).cells) (hc : c ∈ qr.columns) :
    c.values.length = rows.length := by
  have hmem : (c.name, c.values) ∈ qr.cells := mem_map.mpr ⟨c, hc, rfl⟩
  rw [hcells, cells_answer] at hmem
  obtain ⟨p, _, hp⟩ := mem_map.mp hmem
  have hvalues : _ = c.values := congrArg Prod.snd hp
  rw [← hvalues, length_map]

/-- Sorting the numbers of the rows in the result by a column is sorting the rows by it. -/
theorem sortedNumbers {values : List UInt64} (ascending : Bool) (rest : List (String × Bool))
    (hvalues : values = rows.map fun r => (t.cell ((resolveColName t name).getD 0) r).getD 0) :
    ((List.range rows.length).mergeSort fun a b =>
        if ascending then decide (values.getD a 0 ≤ values.getD b 0)
        else decide (values.getD b 0 ≤ values.getD a 0)).map (rows.getD · 0) =
      rows.mergeSort (t.basicLe ((name, ascending) :: rest)) := by
  rw [map_mergeSort (s := t.basicLe ((name, ascending) :: rest)), range_map_getD]
  intro a ha b hb
  rw [hvalues, getD_map_cell (mem_range.mp ha), getD_map_cell (mem_range.mp hb)]
  simp only [Table.basicLe, take_succ_cons, take_zero, map_cons, map_nil,
    lexOn_single, directed, UInt64.le_iff_toNat_le]

/-- `apply_order_by` on a result that shows rows of the table. -/
theorem applyOrderBy_eq (hcells : qr.cells = (answer t items rows).cells)
    (hcount : qr.rowCount = rows.length)
    (hkey : ∀ p ∈ orderBy.take 1, p.1 ∈ (items.flatMap t.shown).map (·.1)) :
    ∃ R, applyOrderBy qr orderBy = .ok R ∧
      R.cells = (answer t items (rows.mergeSort (t.basicLe orderBy))).cells ∧
      R.rowCount = rows.length := by
  cases orderBy with
  | nil =>
    have hsort : rows.mergeSort (t.basicLe []) = rows := mergeSort_true rows
    exact ⟨qr, rfl, by rw [hsort, hcells], hcount⟩
  | cons p rest =>
    obtain ⟨name, ascending⟩ := p
    obtain ⟨key, hfind, hvalues⟩ := find?_columns hcells (hkey (name, ascending) (by simp))
    rw [applyOrderBy]
    by_cases hfew : qr.columns.isEmpty = true ∨ qr.rowCount ≤ 1
    · rw [if_pos hfew]
      refine ⟨qr, rfl, ?_, hcount⟩
      rcases hfew with hnone | hone
      · rw [List.isEmpty_iff.mp hnone] at hfind
        exact nomatch hfind
      · rw [mergeSort_short (by omega), hcells]
    · rw [if_neg hfew, hfind, hcount]
      dsimp only
      have hkeys : (List.range rows.length).mapM (fun i => key.values[i]?) = some key.values := by
        have hlen : key.values.length = rows.length := by rw [hvalues, length_map]
        rw [mapM_getElem? (by simp [hlen]), ← hlen]
        exact congrArg some (ext_getElem (by simp) fun i h₁ h₂ => by simp [h₂])
      rw [hkeys, Outcome.ofOption_some, Outcome.ok_bind]
      -- the rows are numbered within the result; the numbers stand for rows of the table
      have hsorted := sortedNumbers ascending rest hvalues
      generalize horder : (List.range rows.length).mergeSort _ = order at hsorted ⊢
      have hlt : ∀ i ∈ order, i < rows.length := by
        intro i hi
        rw [← horder] at hi
        exact mem_range.mp (mem_mergeSort.mp hi)
      have hcolumn : ∀ c ∈ qr.columns, order.mapM (fun i => c.values[i]?) =
          some (order.map fun i => c.values.getD i 0) := fun c hc =>
        mapM_getElem? fun i hi => by rw [length_values hcells hc]; exact hlt i hi
      rw [mapM_eq_pure fun c hc => by
        rw [hcolumn c hc, Outcome.ofOption_some, Outcome.ok_bind, Outcome.pure_eq_ok]]
      refine ⟨_, rfl, ?_, rfl⟩
      have hnew : (qr.columns.map fun c => (c.name, order.map fun i => c.values.getD i 0)) =
          qr.cells.map fun q => (q.1, order.map fun i => q.2.getD i 0) := by
        simp [QueryResult.cells]
      rw [QueryResult.cells, map_map]
      refine Eq.trans hnew ?_
      rw [hcells, cells_answer, cells_answer, map_map, ← hsorted]
      refine map_congr_left fun p _ => Prod.ext rfl ?_
      simp only [comp_apply, map_map]
      exact map_congr_left fun i hi => getD_map_cell (hlt i hi)

theorem basicStar_eq (ht : t.WellFormed) (hrows : ∀ r ∈ rows, r < t.rowCount) :
    basicStar t rows = .ok (t.columnNames.zipIdx.map fun p =>
      { answerColumn t p.1 p.2 none rows with nullMask := none }) := by
  refine mapM_eq_pure fun p hp => ?_
  rw [bareColumn, columnValues_eq ht.rectangular hrows (ht.snd_lt hp)]
  rfl

theorem basicItem_eq (ht : t.WellFormed) (hrows : ∀ r ∈ rows, r < t.rowCount)
    (hitems : t.ShowsExactly items) {item : SelectItem} (hitem : item ∈ items) :
    basicItem t rows item =
      .ok ((answerColumns t rows item).map fun c =>
        { c with stringValues := none, nullMask := none }) := by
  cases item with
  | star => rw [basicItem, basicStar_eq ht hrows]; simp [answerColumns, answerColumn]
  | column name =>
    obtain ⟨c, hc⟩ := Option.isSome_iff_exists.mp (hitems.exactly name hitem)
    obtain ⟨c', hlt, hname⟩ := hitems.shows _ hitem
    rw [resolveColName_of_columnIdx hc] at hname
    cases hname
    simp only [basicItem, columnByName, hc, bareColumn, columnValues_eq ht.rectangular hrows hlt,
      answerColumns,
      resolveColName_of_columnIdx hc, answerColumn, Outcome.ofOption_some, Outcome.ok_bind,
      Outcome.pure_eq_ok, Option.getD_some, map_cons, map_nil]
  | _ => exact (hitems.shows _ hitem).elim

/-- The basic executor shows the first rows of its clause, without texts in a list of columns. -/
theorem basicResult_eq {q : SelectQuery}
    (ht : t.WellFormed) (hitems : t.ShowsExactly q.select) (hgroup : q.groupBy = [])
    (hrows : filterIndices H t wc = some rows) (hlt : ∀ r ∈ rows, r < t.rowCount) :
    ∃ U, basicResult H K ext q wc t = .ok U ∧
      U.cells = (answer t q.select (limitRows q.limit rows)).cells ∧
      U.rowCount = (limitRows q.limit rows).length := by
  have hlt' : ∀ r ∈ limitRows q.limit rows, r < t.rowCount :=
    fun r hr => hlt r (mem_of_mem_limitRows hr)
  have hplain : ∀ item ∈ q.select, item.isAggregate = false :=
    fun item hitem => (hitems.shows item hitem).not_aggregate.1
  have hitem : ∀ item ∈ q.select, basicItem t (limitRows q.limit rows) item = _ :=
    fun item hitem => basicItem_eq ht hlt' hitems hitem
  unfold basicResult
  simp only [hgroup, isEmpty_nil, Bool.not_true, Bool.false_eq_true, if_false, hrows,
    Outcome.ofOption_some, Outcome.ok_bind, Outcome.pure_eq_ok]
  rw [show rows.take (q.limit.getD rows.length) = limitRows q.limit rows from rfl]
  match hselect : q.select, hitems, hplain, hitem with
  | [], h, _, _ => exact absurd rfl h.nonempty
  | [.star], _, _, _ =>
    rw [basicStar_eq ht hlt']
    exact ⟨_, rfl, by simp [QueryResult.cells, answer, answerColumns, answerColumn], rfl⟩
  | [.column name], h, _, _ =>
    obtain ⟨c, hc⟩ := Option.isSome_iff_exists.mp (h.exactly name (mem_singleton_self _))
    obtain ⟨c', hclt, hname⟩ := h.shows _ (mem_singleton_self _)
    rw [resolveColName_of_columnIdx hc] at hname
    cases hname
    simp only [columnByName, hc, Outcome.ok_bind, bareColumn,
      columnValues_eq ht.rectangular hlt' hclt, Outcome.ofOption_some, Outcome.pure_eq_ok]
    refine ⟨_, rfl, ?_, rfl⟩
    simp [QueryResult.cells, answer, answerColumns, answerColumn, resolveColName_of_columnIdx hc]
  | [.aggregate ..], h, _, _ | [.literal _], h, _, _ | [.window ..], h, _, _
  | [.expression ..], h, _, _ => exact (h.shows _ (mem_singleton_self _)).elim
  | a :: b :: rest, h, hplain, hitem =>
    have hagg : (a :: b :: rest).any SelectItem.isAggregate = false :=
      any_eq_false.mpr fun x hx => by simp [hplain x hx]
    simp only [hagg, Bool.false_eq_true, if_false, mapM_eq_pure hitem]
    refine ⟨_, rfl, ?_, rfl⟩
    simp [QueryResult.cells, answer, List.flatMap, map_flatten, comp_def]

/-- The rows of a clause are in the order of the table. -/
theorem filterIndices_sorted (hrows : filterIndices H t wc = some rows) :
    rows.Pairwise (· < ·) ∧ ∀ r ∈ rows, r < t.rowCount := by
  cases wc with
  | all =>
    cases hrows
    exact ⟨pairwise_lt_range, fun r hr => mem_range.mp hr⟩
  | _ =>
    obtain ⟨mask, _, hmask⟩ := Option.bind_eq_some_iff.mp hrows
    unfold selectedRows at hmask
    split at hmask
    · cases hmask
      exact ⟨pairwise_lt_range.filter _, fun r hr => mem_range.mp (mem_of_mem_filter hr)⟩
    · exact nomatch hmask

/-- The basic executor returns the first rows, sorted by `basicLe`. -/
theorem executeBasic_ordered {w : Option Expr} (ht : t.WellFormed) (hitems : t.ShowsExactly items)
    (hkey : ∀ p ∈ orderBy.take 1, p.1 ∈ (items.flatMap t.shown).map (·.1))
    (hw : parseWhere H K.debugExpr t w = .ok wc) (hrows : filterIndices H t wc = some rows) :
    ∃ R, executeBasic H K ext (orderedSelect items source w orderBy limit) t = .ok R ∧
      R.cells = (answer t items ((rows.take (limit.getD rows.length)).mergeSort
        (t.basicLe orderBy))).cells ∧
      R.rowCount = (rows.take (limit.getD rows.length)).length := by
  have hplain :
      (orderedSelect items source w orderBy limit).select.any SelectItem.isWindow = false := by
    refine any_eq_false.mpr fun item hitem => ?_
    have hshows := hitems.shows item hitem
    cases item with
    | star | column _ => simp [SelectItem.isWindow]
    | _ => exact hshows.elim
  have hstrip : stripWindows (orderedSelect items source w orderBy limit) =
      orderedSelect items source w orderBy limit := by
    rw [stripWindows, hplain]
    rfl
  obtain ⟨U, hU, hcells, hcount⟩ := basicResult_eq (K := K)
    (q := orderedSelect items source w orderBy limit) ht hitems rfl hrows
    (filterIndices_sorted hrows).2
  obtain ⟨R, hR, hcellsR, hcountR⟩ := applyOrderBy_eq hcells hcount hkey
  refine ⟨R, ?_, hcellsR, hcountR⟩
  unfold executeBasic
  rw [show (orderedSelect items source w orderBy limit).whereClause = w from rfl, hw,
    Outcome.ofExcept_ok, Outcome.ok_bind, hstrip]
  dsimp only
  rw [hU, Outcome.ok_bind]
  exact hR

end

/-! ## Ordered queries -/

/-- A query of columns of a table with an ORDER BY, as the dispatcher gets it. -/
structure DispatchedQuery (H : Host) where
  table : Table
  items : List SelectItem
  source : String
  filter : Option Expr
  orderBy : List (String × Bool)
  limit : Option Nat
  mask : List Bool
  wellFormed : table.WellFormed
  shows : table.ShowsAll items
  ordersBy : table.OrdersBy orderBy
  mask_eq : buildFilterMask H table filter = some mask
  mask_length : table.rowCount ≤ mask.length

namespace DispatchedQuery

variable {H : Host} (d : DispatchedQuery H)

def query : SelectQuery := orderedSelect d.items d.source d.filter d.orderBy d.limit

/-- The rows of the WHERE clause. -/
def rows : List Nat := d.table.rowsWhere fun r => d.mask.getD r false

/-- The rows that are returned. -/
def returned : List Nat :=
  (d.rows.mergeSort (d.table.dispatchLe d.items d.orderBy)).take (d.limit.getD d.rows.length)

theorem rows_sorted : d.rows.Pairwise (· < ·) := pairwise_lt_range.filter _

theorem executeShape_eq {K : Kernels} : executeShape H K (classifyQuery H d.query) d.query d.table =
    .ok (answer d.table d.items d.returned) :=
  executeShape_ordered d.wellFormed d.shows d.ordersBy d.mask_eq d.mask_length

end DispatchedQuery

/-- A query of columns of a table with an ORDER BY, as the basic executor gets it. It can only sort
by a column that is shown. -/
structure BasicQuery (H : Host) (K : Kernels) where
  table : Table
  items : List SelectItem
  source : String
  filter : Option Expr
  orderBy : List (String × Bool)
  limit : Option Nat
  clause : WhereClause
  rows : List Nat
  wellFormed : table.WellFormed
  shows : table.ShowsExactly items
  key_shown : ∀ p ∈ orderBy.take 1, p.1 ∈ (items.flatMap table.shown).map (·.1)
  clause_eq : parseWhere H K.debugExpr table filter = .ok clause
  rows_eq : filterIndices H table clause = some rows

namespace BasicQuery

variable {H : Host} {K : Kernels} (b : BasicQuery H K)

def query : SelectQuery := orderedSelect b.items b.source b.filter b.orderBy b.limit

/-- The rows that are returned. -/
def returned : List Nat :=
  (b.rows.take (b.limit.getD b.rows.length)).mergeSort (b.table.basicLe b.orderBy)

theorem executeBasic_eq {ext : QueryExtensions} : ∃ R,
    executeBasic H K ext b.query b.table = .ok R ∧
    R.rows = (answer b.table b.items b.returned).rows := by
  obtain ⟨R, hR, hcells, hcount⟩ := executeBasic_ordered b.wellFormed b.shows
    b.key_shown b.clause_eq b.rows_eq
  refine ⟨R, hR, QueryResult.rows_congr hcells ?_⟩
  rw [hcount]
  exact (length_mergeSort _).symm

end BasicQuery

theorem dispatchLe_totalPreorder {t : Table} {items : List SelectItem}
    {orderBy : List (String × Bool)} : TotalPreorder (t.dispatchLe items orderBy) :=
  SortValue.unsignedLe_totalPreorder.lexOn _

end TensorVault
