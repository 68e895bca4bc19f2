import Mathlib.Data.Finset.Card
import TensorVault.Engine.Ordering
import TensorVault.Tpch.Condition

/-!
# Grouped queries of the interpreter

`SELECT g1, .., gk, COUNT(*), COUNT(c), MIN(c), MAX(c) FROM t GROUP BY g1, .., gk` has no plan in
the two fast paths, since they do not know COUNT of a column. So the rows are grouped by the hash of
their keys, chunk by chunk, and every item is evaluated on the rows of each group.

* `groupRows_eq` — whatever the chunks and the order in which hash maps are iterated, the groups are
  the rows with equal hashes, one group for each hash
* `executeGrouped_eq` — the rows of the result
* `executeGrouped_exact_iff` — they are those of the distinct keys, with exact counts, minimum and
  maximum, exactly if no two keys have the same hash and no cell of `c` is 0
-/

namespace TensorVault.Tpch

open Text ExecTable List Function

/-! ## Groups -/

variable {α : Type} {l : List Int}

theorem flatten_slices {l : List α} {size n : Nat} :
    ((List.range n).map fun k => (l.drop (k * size)).take size).flatten = l.take (n * size) := by
  induction n with
  | zero => simp
  | succ n ih =>
    rw [range_succ, map_append, flatten_append, ih, Nat.succ_mul, take_add]
    simp

theorem flatten_chunks {indices : List Nat} : (chunks indices).flatten = indices := by
  rw [chunks, flatten_slices, take_of_length_le]
  omega

section

variable (M : Machine)

/-- The rows with a hash, in the parts that the chunks contribute. -/
theorem values_parts (hashed : List (UInt64 × Nat)) (h : UInt64) :
    ((Multimap.toPairs ((chunks (List.range hashed.length)).map fun chunk =>
      M.iterate (Multimap.ofPairs (chunk.filterMap (hashed[·]?)))).flatten).filter
        fun p => p.1 = h).map (·.2) = (hashed.filter fun p => p.1 = h).map (·.2) := by
  have hpart : ∀ pairs : List (UInt64 × Nat),
      ((Multimap.toPairs (M.iterate (Multimap.ofPairs pairs))).filter fun p => p.1 = h).map (·.2) =
        (pairs.filter fun p => p.1 = h).map (·.2) := by
    intro pairs
    have hnd := Multimap.nodup_keys_ofPairs pairs
    have hperm := M.iterate_perm (Multimap.ofPairs pairs)
    rw [Multimap.values_toPairs ((hperm.map (·.1)).nodup_iff.mpr hnd), Multimap.get_perm hperm hnd,
      Multimap.get_ofPairs]
  have hparts : ∀ parts : List (List Nat),
      ((Multimap.toPairs (parts.map fun chunk =>
        M.iterate (Multimap.ofPairs (chunk.filterMap (hashed[·]?)))).flatten).filter
          fun p => p.1 = h).map (·.2) =
        ((parts.flatten.filterMap (hashed[·]?)).filter fun p => p.1 = h).map (·.2) := by
    intro parts
    induction parts with
    | nil => rfl
    | cons chunk parts ih =>
      have hcons : ∀ a b : Groups, Multimap.toPairs (a ++ b) =
          Multimap.toPairs a ++ Multimap.toPairs b := fun a b => by
        simp [Multimap.toPairs]
      rw [map_cons, flatten_cons, hcons, filter_append, map_append, ih, hpart,
        flatten_cons, filterMap_append, filter_append, map_append]
  have hall : (List.range hashed.length).filterMap (hashed[·]?) = hashed := by
    have hmap : (List.range hashed.length).map (hashed[·]?) = hashed.map some :=
      ext_getElem (by simp) fun i h₁ h₂ => by simp
    have hfilter := congrArg (List.filterMap id) hmap
    rwa [filterMap_map, filterMap_map, id_comp, id_comp, filterMap_some] at hfilter
  rw [hparts, flatten_chunks, hall]

/-- The groups are the rows with equal hashes, one group for each hash. -/
theorem groupRows_eq (indices : List Nat) (keys : List (List UInt64)) (hash : Nat → UInt64)
    (hhash : ∀ k i, indices[k]? = some i → keyHash (keys.map fun col => col.getD k 0) = hash i) :
    ∃ hashes : List UInt64, hashes.Nodup ∧ (∀ h, h ∈ hashes ↔ h ∈ indices.map hash) ∧
      groupRows M indices keys = hashes.map fun h => indices.filter fun i => hash i = h := by
  have hhashed : (indices.mapIdx fun k i => (keyHash (keys.map fun col => col.getD k 0), i)) =
      indices.map fun i => (hash i, i) :=
    ext_getElem (by simp) fun k h₁ h₂ => by
      have hk : k < indices.length := by simpa using h₂
      rw [getElem_mapIdx, getElem_map, hhash k indices[k] (getElem?_eq_getElem hk)]
  have hparts := values_parts M (indices.map fun i => (hash i, i))
  rw [length_map] at hparts
  rw [groupRows]
  simp only [hhashed]
  rw [Multimap.foldl_push_eq]
  generalize Multimap.toPairs _ = pairs at hparts ⊢
  have hvalues : ∀ h, (pairs.filter fun p => p.1 = h).map (·.2) =
      indices.filter fun i => hash i = h := by
    intro h
    rw [hparts h, filter_map, map_map]
    simp [comp_def]
  refine ⟨(Multimap.ofPairs pairs).map (·.1), Multimap.nodup_keys_ofPairs pairs, fun h => ?_, ?_⟩
  · -- a hash has a group if a row has this hash
    rw [Multimap.mem_keys_ofPairs]
    have hmem : (∃ p ∈ pairs, p.1 = h) ↔ (pairs.filter fun p => p.1 = h).map (·.2) ≠ [] := by
      simp [filter_eq_nil_iff]
    rw [hmem, hvalues]
    simp [filter_eq_nil_iff]
  · conv_lhs => rw [Multimap.ofPairs_eq_map, map_map]
    simp only [comp_def, hvalues]

end

/-! ## The query -/

/-- `SELECT g1, .., gk, COUNT(*), COUNT(c), MIN(c), MAX(c) FROM t GROUP BY g1, .., gk` over a table
of integers, and the mask of its WHERE clause. -/
structure GroupedQuery (M : Machine) where
  source : IntTable M.host
  mask : List Bool
  groupBy : List String
  counted : String
  groupBy_ne_nil : groupBy ≠ []
  names : ∀ name ∈ counted :: groupBy, (source.table.lookupCol M.host name).isSome = true
  mask_length : mask.length = source.table.rowCount
  rowCount_lt : source.table.rowCount < 2 ^ 64

namespace GroupedQuery

variable {M : Machine} (q : GroupedQuery M)

/-- The aggregates of the select list. -/
def aggregates : List SelectItem2 :=
  [⟨.countStar, none⟩, ⟨.agg .count (.col q.counted) false, none⟩,
    ⟨.agg .min (.col q.counted) false, none⟩, ⟨.agg .max (.col q.counted) false, none⟩]

def query : SelectQuery2 where
  select := q.groupBy.map (fun g => ⟨.col g, none⟩) ++ q.aggregates
  source := []
  joins := []
  whereClause := none
  groupBy := q.groupBy.map .col
  having := none
  orderBy := []
  limit := none

/-- The rows of the mask. -/
def selected : List Nat := maskIndices q.mask

/-- The column of a name. -/
def column (name : String) : Nat := (q.source.table.lookupCol M.host name).getD 0

theorem lookup_column {name : String} (h : name ∈ q.counted :: q.groupBy) :
    q.source.table.lookupCol M.host name = some (q.column name) := by
  obtain ⟨c, hc⟩ := Option.isSome_iff_exists.mp (q.names name h)
  rw [column, hc]
  rfl

/-- The group values of a row. -/
def key (i : Nat) : List UInt64 := keyCells q.source.table (q.groupBy.map q.column) i

/-- The integer of `c` in a row. -/
def number (i : Nat) : Int := signedOf (q.source.table.cell (q.column q.counted) i)

/-- A row of the result: the group values, COUNT(*), COUNT(c), MIN(c) and MAX(c). -/
def shown (key : List UInt64) (rows : List Nat) (count : Nat) : List UInt64 :=
  key ++ [UInt64.ofNat rows.length, UInt64.ofNat count,
    ((rows.map q.number).min?.map cellOfInt).getD 0,
      ((rows.map q.number).max?.map cellOfInt).getD 0]

/-- The result the query is to have: a row for each distinct key, with COUNT(c) equal to
COUNT(*). -/
def expected : List (List UInt64) :=
  (q.selected.map q.key).dedup.map fun key =>
    let rows := q.selected.filter fun i => q.key i = key
    q.shown key rows rows.length

/-- COUNT(c) as it is computed: cells that are 0 are not counted. -/
def nonzero (rows : List Nat) : Nat :=
  (rows.filter fun i => q.source.table.cell (q.column q.counted) i != 0).length

end GroupedQuery

/-! ## Aggregates of a group -/

theorem cellOfInt_natCast {n : Nat} : cellOfInt n = UInt64.ofNat n := by
  apply UInt64.toNat_inj.mp
  rw [cellOfInt, UInt64.toNat_ofNat', UInt64.toNat_ofNat']
  omega

theorem bestOf_eq_foldl (pick : α → α → α) (a : α) (l : List α) :
    bestOf pick (a :: l) = some (l.foldl pick a) := by
  induction l generalizing a with
  | nil => rfl
  | cons v l ih => exact ih (pick a v)

theorem bestOf_min : bestOf min l = l.min? := by
  cases l with
  | nil => rfl
  | cons a l => rw [bestOf_eq_foldl]; rfl

theorem bestOf_max : bestOf max l = l.max? := by
  cases l with
  | nil => rfl
  | cons a l => rw [bestOf_eq_foldl]; rfl

section

variable {groups : List (List Nat)} {M : Machine} (cat : Catalog) (L : Level) (outer : Outer)
  (q : GroupedQuery M) {rows : List Nat} {item : SelectItem2}

theorem evalAggExpr_col {name : String} {c : Nat}
    (h : q.source.table.lookupCol M.host name = some c) (hrows : rows ≠ []) :
    evalAggExpr M (evaluator M cat L outer) q.source.table rows (.col name) =
      pure (.int (signedOf (q.source.table.cell c (rows.headD 0)))) := by
  cases rows with
  | nil => exact absurd rfl hrows
  | cons i rows =>
    have hfirst : evalAggExpr M (evaluator M cat L outer) q.source.table (i :: rows) (.col name) =
        evaluator M cat L outer (.col name) q.source.table i := by simp [evalAggExpr, evalFirst]
    exact q.source.evalColumn h

theorem typedColumn_counted : typedColumn q.source.table (q.column q.counted) = pure .int := by
  have hlt := q.source.lookup_lt (q.lookup_column mem_cons_self)
  rw [typedColumn, q.source.type_of_lt hlt]
  exact if_pos hlt

/-- The values of the aggregates of a group. -/
def aggregateValue (item : SelectItem2) (rows : List Nat) : UInt64 :=
  match item.expr with
  | .countStar => UInt64.ofNat rows.length
  | .agg .count _ _ => UInt64.ofNat (q.nonzero rows)
  | .agg .min _ _ => ((rows.map q.number).min?.map cellOfInt).getD 0
  | .agg .max _ _ => ((rows.map q.number).max?.map cellOfInt).getD 0
  | _ => 0

theorem evalAggExpr_aggregates (h : item ∈ q.aggregates) :
    ∃ v, evalAggExpr M (evaluator M cat L outer) q.source.table rows item.expr = pure v ∧
      v.toU64 M.host = aggregateValue q item rows := by
  have hcol : q.source.table.colIn M.host (.col q.counted) = some (q.column q.counted) :=
    q.lookup_column mem_cons_self
  simp only [GroupedQuery.aggregates, mem_cons, not_mem_nil, or_false] at h
  rcases h with rfl | rfl | rfl | rfl
  · exact ⟨.int rows.length, by simp [evalAggExpr], cellOfInt_natCast⟩
  · refine ⟨.int (q.nonzero rows : Nat), ?_, cellOfInt_natCast⟩
    simp [evalAggExpr, evalAgg, hcol, GroupedQuery.nonzero]
  · refine ⟨((rows.map q.number).min?.map Value2.int).getD .null, ?_, ?_⟩
    · simp [evalAggExpr, evalAgg, minmaxVec, hcol, typedColumn_counted, bestOf_min]
      rfl
    · simp only [aggregateValue]
      cases (rows.map q.number).min? <;> rfl
  · refine ⟨((rows.map q.number).max?.map Value2.int).getD .null, ?_, ?_⟩
    · simp [evalAggExpr, evalAgg, minmaxVec, hcol, typedColumn_counted, bestOf_max]
      rfl
    · simp only [aggregateValue]
      cases (rows.map q.number).max? <;> rfl

theorem groupColumn_eq {f : List Nat → UInt64} (h : ∀ rows ∈ groups, ∃ v,
      evalAggExpr M (evaluator M cat L outer) q.source.table rows item.expr = pure v ∧
        v.toU64 M.host = f rows) :
    groupColumn M (evaluator M cat L outer) q.source.table item groups = pure (groups.map f) := by
  refine mapM_eq_pure fun rows hrows => ?_
  obtain ⟨v, hv, hf⟩ := h rows hrows
  rw [hv, attempt_pure, pure_bind, Option.getD_some, hf]

/-- The functions that give the cells of a row from the rows of its group. -/
def cellFunctions : List (List Nat → UInt64) :=
  q.groupBy.map (fun g rows => q.source.table.cell (q.column g) (rows.headD 0)) ++
    q.aggregates.map (aggregateValue q)

theorem mapM_groupColumn (hgroups : ∀ rows ∈ groups, rows ≠ []) :
    q.query.select.mapM (groupColumn M (evaluator M cat L outer) q.source.table · groups) =
      pure ((cellFunctions q).map fun f => groups.map f) := by
  have hkeys : (q.groupBy.map fun g => (⟨.col g, none⟩ : SelectItem2)).mapM
      (groupColumn M (evaluator M cat L outer) q.source.table · groups) =
      pure (q.groupBy.map fun g => groups.map fun rows =>
        q.source.table.cell (q.column g) (rows.headD 0)) := by
    rw [mapM_map]
    refine mapM_eq_pure fun g hg => groupColumn_eq cat L outer q fun rows hrows => ?_
    exact ⟨_, evalAggExpr_col cat L outer q (q.lookup_column (mem_cons_of_mem _ hg))
      (hgroups rows hrows), cellOfInt_signedOf⟩
  have haggs : q.aggregates.mapM (groupColumn M (evaluator M cat L outer) q.source.table · groups) =
      pure (q.aggregates.map fun item => groups.map (aggregateValue q item)) :=
    mapM_eq_pure fun item hitem => groupColumn_eq cat L outer q fun rows _ =>
      evalAggExpr_aggregates cat L outer q hitem
  rw [GroupedQuery.query, mapM_append, hkeys, pure_bind, haggs, pure_bind, cellFunctions,
    map_append, map_map, map_map]
  rfl

/-- The fast paths have no plan for COUNT of a column. -/
theorem plans_eq_none (eitherWay : Bool) :
    (q.query.select.mapM fun item => itemPlan q.source.table M.host eitherWay item.expr) =
      none := by
  have hcol : q.source.table.colIn M.host (.col q.counted) = some (q.column q.counted) :=
    q.lookup_column mem_cons_self
  have haggs : (q.aggregates.mapM fun item => itemPlan q.source.table M.host eitherWay item.expr) =
      none := by
    simp [GroupedQuery.aggregates, itemPlan, hcol]
  rw [GroupedQuery.query, mapM_append, haggs]
  cases (q.groupBy.map fun g => (⟨.col g, none⟩ : SelectItem2)).mapM fun item =>
    itemPlan q.source.table M.host eitherWay item.expr <;> rfl

theorem groupedResult_rows (hgroups : ∀ rows ∈ groups, rows ≠ []) :
    ∃ R, groupedResult M (evaluator M cat L outer) q.source.table q.query groups = pure R ∧
      R.rows = groups.map fun rows => (cellFunctions q).map fun f => f rows := by
  cases groups with
  | nil => exact ⟨_, by rw [groupedResult]; rfl, rfl⟩
  | cons g gs =>
    have hfused : fusedGroupedAgg M q.source.table q.query.select (g :: gs) = none := by
      simp only [fusedGroupedAgg, isEmpty_cons, Bool.false_eq_true, if_false, plans_eq_none q true]
      rfl
    rw [groupedResult, hfused]
    rw [mapM_groupColumn cat L outer q hgroups, pure_bind]
    refine ⟨_, rfl, QueryResult.rows_of_columns ?_ rfl⟩
    have hlen : q.query.select.length =
        ((cellFunctions q).map fun f => (g :: gs).map f).length := by
      simp [cellFunctions, GroupedQuery.query]
    rw [map_map]
    exact map_snd_zip (by omega)

theorem cellFunctions_apply : ((cellFunctions q).map fun f => f rows) =
    q.shown (q.key (rows.headD 0)) rows (q.nonzero rows) := by
  simp [cellFunctions, GroupedQuery.aggregates, aggregateValue, GroupedQuery.shown,
    GroupedQuery.key, keyCells, comp_def]

/-- The rows of the result: one for each hash, showing the key of the first row that has it. -/
theorem executeGrouped_eq : ∃ (R : QueryResult) (hashes : List UInt64),
    executeGrouped M (evaluator M cat L outer) q.source.table q.query q.mask = pure R ∧
      hashes.Nodup ∧ (∀ h, h ∈ hashes ↔ h ∈ q.selected.map (keyHash ∘ q.key)) ∧
      R.rows = hashes.map fun h =>
        let rows := q.selected.filter fun i => keyHash (q.key i) = h
        q.shown (q.key (rows.headD 0)) rows (q.nonzero rows) := by
  have hlow : tryLowCardGrouped M q.source.table q.query q.mask = none := by
    rw [tryLowCardGrouped]
    simp only [GroupedQuery.query, Option.isSome_none, Bool.false_eq_true, if_false]
    have hplans := plans_eq_none q false
    rw [GroupedQuery.query] at hplans
    rw [hplans]
    cases (q.groupBy.map Expr2.col).mapM (q.source.table.colIn M.host) <;> rfl
  have hkeys : groupKeys M (evaluator M cat L outer) q.source.table q.query q.selected =
      pure (q.groupBy.map fun g => q.selected.map (q.source.table.cell (q.column g))) := by
    rw [groupKeys, GroupedQuery.query, mapM_map]
    refine mapM_eq_pure fun g hg => ?_
    dsimp only [comp_apply]
    rw [show q.source.table.colIn M.host (.col g) = some (q.column g) from
      q.lookup_column (mem_cons_of_mem _ hg)]
  obtain ⟨hashes, hnodup, hmem, hgroups⟩ := groupRows_eq M q.selected
    (q.groupBy.map fun g => q.selected.map (q.source.table.cell (q.column g))) (keyHash ∘ q.key) (by
      intro k i hk
      rw [comp_apply, GroupedQuery.key, keyCells, map_map, map_map]
      refine congrArg keyHash (map_congr_left fun g _ => ?_)
      simp [getD_eq_getElem?_getD, hk])
  have hnonempty : ∀ rows ∈ hashes.map fun h =>
      q.selected.filter fun i => (keyHash ∘ q.key) i = h, rows ≠ [] := by
    intro rows hrows
    obtain ⟨h, hh, rfl⟩ := mem_map.mp hrows
    obtain ⟨i, hi, rfl⟩ := mem_map.mp ((hmem h).mp hh)
    exact ne_nil_of_mem (mem_filter.mpr ⟨hi, decide_eq_true rfl⟩)
  obtain ⟨R, hR, hrows⟩ := groupedResult_rows cat L outer q hnonempty
  refine ⟨R, hashes, ?_, hnodup, hmem, ?_⟩
  · have hgroup : q.query.groupBy.isEmpty = false := by
      simp [GroupedQuery.query, q.groupBy_ne_nil]
    rw [executeGrouped, if_neg (by rw [hgroup]; decide), hlow]
    dsimp only
    rw [show maskIndices q.mask = q.selected from rfl, hkeys, pure_bind, hgroups]
    rw [show q.query.having = none from rfl, havingGroups, pure_bind, hR, pure_bind]
    rfl
  · rw [hrows, map_map]
    exact map_congr_left fun h _ => cellFunctions_apply q

end

/-! ## Exact results -/

/-- No two keys have the same hash, and no counted cell is 0. -/
def GroupsExact {M : Machine} (q : GroupedQuery M) : Prop :=
  (∀ i ∈ q.selected, ∀ j ∈ q.selected, keyHash (q.key i) = keyHash (q.key j) → q.key i = q.key j) ∧
    ∀ i ∈ q.selected, q.source.table.cell (q.column q.counted) i ≠ 0

/-- Two pairs of group values with the same hash. -/
example : keyHash [0, 0x517cc1b727220a95] = keyHash [1, 0] := by decide

section

variable {M : Machine} {q : GroupedQuery M} {i : Nat}

theorem length_key {i : Nat} : (q.key i).length = q.groupBy.length := by
  simp [GroupedQuery.key, keyCells]

theorem mem_keys {k : List UInt64} : k ∈ (q.selected.map q.key).dedup ↔
    ∃ i ∈ q.selected, q.key i = k := by
  simp

/-- Different keys have different hashes if there are as many hashes as keys. -/
theorem keyHash_injOn {hashes : List UInt64} (hnodup : hashes.Nodup)
    (hmem : ∀ h, h ∈ hashes ↔ h ∈ q.selected.map (keyHash ∘ q.key))
    (hlen : hashes.length = (q.selected.map q.key).dedup.length) {i j : Nat} (hi : i ∈ q.selected)
    (hj : j ∈ q.selected) (heq : keyHash (q.key i) = keyHash (q.key j)) : q.key i = q.key j := by
  have himage : (q.selected.map q.key).dedup.toFinset.image keyHash = hashes.toFinset := by
    ext h
    simp [hmem]
  have hcard : ((q.selected.map q.key).dedup.toFinset.image keyHash).card =
      (q.selected.map q.key).dedup.toFinset.card := by
    rw [himage, toFinset_card_of_nodup hnodup, toFinset_card_of_nodup (nodup_dedup _), hlen]
  have hinj := Finset.card_image_iff.mp hcard
  exact hinj (by simpa using ⟨i, hi, rfl⟩) (by simpa using ⟨j, hj, rfl⟩) heq

/-- With different hashes the rows with the hash of a key are the rows with this key. -/
theorem filter_keyHash
    (hinj : ∀ i ∈ q.selected, ∀ j ∈ q.selected, keyHash (q.key i) = keyHash (q.key j) →
      q.key i = q.key j)
    (hi : i ∈ q.selected) :
    (q.selected.filter fun j => keyHash (q.key j) = keyHash (q.key i)) =
      q.selected.filter fun j => q.key j = q.key i := by
  refine filter_congr fun j hj => ?_
  rw [decide_eq_decide]
  exact ⟨hinj j hj i hi, congrArg keyHash⟩

theorem key_headD (hi : i ∈ q.selected) :
    q.key ((q.selected.filter fun j => q.key j = q.key i).headD 0) = q.key i := by
  have hmem : i ∈ q.selected.filter fun j => q.key j = q.key i :=
    mem_filter.mpr ⟨hi, decide_eq_true rfl⟩
  cases hrows : q.selected.filter fun j => q.key j = q.key i with
  | nil => rw [hrows] at hmem; exact nomatch hmem
  | cons j rows =>
    have hj : j ∈ q.selected.filter fun j => q.key j = q.key i := by rw [hrows]; exact mem_cons_self
    simpa using (mem_filter.mp hj).2

theorem nonzero_eq_length {rows : List Nat} :
    q.nonzero rows = rows.length ↔ ∀ i ∈ rows, q.source.table.cell (q.column q.counted) i ≠ 0 := by
  rw [GroupedQuery.nonzero, length_filter_eq_length_iff]
  simp

theorem length_selected_lt (p : Nat → Bool) : (q.selected.filter p).length < 2 ^ 64 := by
  have hle : q.selected.length ≤ q.mask.length := by
    exact (length_filter_le _ _).trans (by simp)
  have hfilter := length_filter_le p q.selected
  have hlt := q.rowCount_lt
  have heq := q.mask_length
  omega

/-- Equal rows of results have equal keys and counts. -/
theorem shown_inj {k k' : List UInt64} {rows rows' : List Nat} {n n' : Nat}
    (hlen : k.length = k'.length) (h : q.shown k rows n = q.shown k' rows' n') :
    k = k' ∧ UInt64.ofNat n = UInt64.ofNat n' := by
  obtain ⟨hk, hrest⟩ := append_inj h hlen
  simp only [List.cons.injEq] at hrest
  exact ⟨hk, hrest.2.1⟩

end

section

variable {M : Machine} (cat : Catalog) (L : Level) (outer : Outer)

/-- The result has exactly one row for each distinct key, with the exact counts, minimum and maximum
of its rows, exactly if different keys have different hashes and no counted cell is 0. -/
theorem executeGrouped_exact_iff (q : GroupedQuery M) :
    ∃ R, executeGrouped M (evaluator M cat L outer) q.source.table q.query q.mask = pure R ∧
      (R.rows.Perm q.expected ↔ GroupsExact q) := by
  obtain ⟨R, hashes, hR, hnodup, hmem, hrows⟩ := executeGrouped_eq cat L outer q
  refine ⟨R, hR, ?_⟩
  rw [hrows]
  constructor
  · intro hperm
    have hlen : hashes.length = (q.selected.map q.key).dedup.length := by
      simpa [GroupedQuery.expected] using hperm.length_eq
    have hinj : ∀ i ∈ q.selected, ∀ j ∈ q.selected, keyHash (q.key i) = keyHash (q.key j) →
        q.key i = q.key j := fun i hi j hj => keyHash_injOn hnodup hmem hlen hi hj
    refine ⟨hinj, fun i hi hzero => ?_⟩
    -- the row of the group of `i` is expected only if all its cells are counted
    have hin := hperm.mem_iff.mp (mem_map.mpr ⟨keyHash (q.key i),
      (hmem _).mpr (mem_map.mpr ⟨i, hi, rfl⟩), rfl⟩)
    dsimp only at hin
    rw [filter_keyHash hinj hi, key_headD hi] at hin
    obtain ⟨k, hk, hshown⟩ := mem_map.mp hin
    obtain ⟨j, hj, rfl⟩ := mem_keys.mp hk
    obtain ⟨hkey, hcount⟩ := shown_inj (by rw [length_key, length_key]) hshown
    rw [hkey] at hcount
    have hle : q.nonzero (q.selected.filter fun j => q.key j = q.key i) ≤
        (q.selected.filter fun j => q.key j = q.key i).length := length_filter_le _ _
    have hlt := length_selected_lt (q := q) fun j => q.key j = q.key i
    have heq : q.nonzero (q.selected.filter fun j => q.key j = q.key i) =
        (q.selected.filter fun j => q.key j = q.key i).length := by
      have hnat := congrArg UInt64.toNat hcount
      rw [UInt64.toNat_ofNat', UInt64.toNat_ofNat', Nat.mod_eq_of_lt hlt,
        Nat.mod_eq_of_lt (by omega)] at hnat
      exact hnat.symm
    exact nonzero_eq_length.mp heq i (mem_filter.mpr ⟨hi, decide_eq_true rfl⟩) hzero
  · rintro ⟨hinj, hcells⟩
    have hperm : hashes.Perm ((q.selected.map q.key).dedup.map keyHash) := by
      refine (perm_ext_iff_of_nodup hnodup ?_).mpr fun h => ?_
      · refine Nodup.map_on ?_ (nodup_dedup _)
        intro k hk k' hk' heq
        obtain ⟨i, hi, rfl⟩ := mem_keys.mp hk
        obtain ⟨j, hj, rfl⟩ := mem_keys.mp hk'
        exact hinj i hi j hj heq
      · simp [hmem]
    refine (hperm.map _).trans ?_
    rw [map_map, GroupedQuery.expected]
    refine List.Perm.of_eq (map_congr_left fun k hk => ?_)
    obtain ⟨i, hi, rfl⟩ := mem_keys.mp hk
    dsimp only [comp_apply]
    rw [filter_keyHash hinj hi, key_headD hi, nonzero_eq_length.mpr fun j hj =>
      hcells j (mem_of_mem_filter hj)]

end

/-! ## Zeros -/

/-- The group 1 with the cells 0 and 5. -/
def zeroGroup : GroupedQuery Machine.plain where
  source :=
    { table :=
        { columns := [[1, 1], [0, 5]]
          columnNames := ["g", "c"]
          colTypes := [.int, .int]
          stringColumns := [none, none]
          rowCount := 2
          colMap := [("g", 0), ("c", 1)] }
      full := by decide
      types := rfl
      colMap_lt := by decide
      named := by decide +kernel }
  mask := [true, true]
  groupBy := ["g"]
  counted := "c"
  groupBy_ne_nil := by decide
  names := by decide +kernel
  mask_length := rfl
  rowCount_lt := by decide

/-- COUNT(c) of the cells 0 and 5 is 1. -/
theorem executeGrouped_skips_zero :
    (∃ R, executeGrouped Machine.plain
        (evaluator Machine.plain .empty (interpreter Machine.plain .empty 0) none)
        zeroGroup.source.table zeroGroup.query zeroGroup.mask = pure R ∧
      R.rows = [[1, 2, 1, 0, 5]]) ∧
    zeroGroup.expected = [[1, 2, 2, 0, 5]] := by
  refine ⟨?_, by decide +kernel⟩
  obtain ⟨R, hashes, hR, hnodup, hmem, hrows⟩ := executeGrouped_eq .empty
    (interpreter Machine.plain .empty 0) none zeroGroup
  have hhashes : hashes = [1] := by
    refine perm_singleton.mp ((perm_ext_iff_of_nodup hnodup (by decide)).mpr fun h => ?_)
    rw [hmem, show zeroGroup.selected.map (keyHash ∘ zeroGroup.key) = [1, 1] by decide +kernel]
    simp
  rw [hhashes] at hrows
  exact ⟨R, hR, hrows.trans (by decide +kernel)⟩

end TensorVault.Tpch
