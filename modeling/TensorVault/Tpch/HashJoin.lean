import TensorVault.Tpch.Condition

/-!
# What an explicit join returns

`hash_join` splits an ON condition three ways: equalities between a column of either side become the
key, conjuncts that are no equality of two columns are evaluated on every pair with equal keys, and
equalities between two columns of the same side are in neither part. Without a key the condition is
not looked at at all, and an outer join is not outer.

* `hashJoinPairs_eq` — the pairs of rows the join puts out, for every ON condition of comparisons
* `hashJoin_rows` — the rows of the result are those of the pairs
* `hashJoin_exact_iff` — for which tables and conditions these are the pairs that satisfy ON
-/

namespace TensorVault.Tpch

variable {jt : JoinType2} {left right : ExecTable} {test : Nat → Nat → Bool}

open Text ExecTable List

/-! ## Nested loops -/

/-- The nested loop over `n` left and `m` right rows: every pair that passes the test, and for an
outer join every left row that passes with no right row. -/
def joinPairs (n m : Nat) (test : Nat → Nat → Bool) (jt : JoinType2) : List (Nat × Option Nat) :=
  (List.range n).flatMap fun l =>
    (partners jt ((List.range m).filter (test l))).map fun r => (l, r)

variable {matched : List Nat} {n m l r : Nat} {test' : Nat → Nat → Bool} {H : Host}

theorem mem_partners_some {r : Nat} : some r ∈ partners jt matched ↔ r ∈ matched := by
  cases matched <;> cases jt <;> simp [partners]

theorem partners_inner : partners .inner matched = matched.map some := by
  cases matched <;> rfl

theorem mem_joinPairs : (l, some r) ∈ joinPairs n m test jt ↔ l < n ∧ r < m ∧ test l r = true := by
  simp [joinPairs, mem_partners_some]

theorem joinPairs_congr (h : ∀ l < n, ∀ r < m, test l r = test' l r) :
    joinPairs n m test jt = joinPairs n m test' jt := by
  refine flatMap_congr fun l hl => ?_
  rw [filter_congr fun r hr => h l (mem_range.mp hl) r (mem_range.mp hr)]

/-- Two tests give the same pairs only if they agree. -/
theorem joinPairs_perm_iff :
    (joinPairs n m test jt).Perm (joinPairs n m test' jt) ↔
      ∀ l < n, ∀ r < m, test l r = test' l r := by
  constructor
  · intro h l hl r hr
    have hmem := h.mem_iff (a := (l, some r))
    rw [mem_joinPairs, mem_joinPairs] at hmem
    simpa [hl, hr] using hmem
  · intro h
    rw [joinPairs_congr h]

theorem allPairs_eq :
    allPairs left right = joinPairs left.rowCount right.rowCount (fun _ _ => true) .inner := by
  simp [allPairs, joinPairs, partners_inner, Function.comp_def]

/-- The cross product consists of the pairs that pass a test only if all pairs pass, and if an outer
join has no left row to keep without a partner. -/
theorem joinPairs_true_perm_iff :
    (joinPairs n m (fun _ _ => true) .inner).Perm (joinPairs n m test jt) ↔
      (∀ l < n, ∀ r < m, test l r = true) ∧ (jt = .left → m = 0 → n = 0) := by
  constructor
  · intro h
    constructor
    · intro l hl r hr
      exact (mem_joinPairs.mp (h.mem_iff.mp (mem_joinPairs.mpr ⟨hl, hr, rfl⟩))).2.2
    · rintro rfl rfl
      have hlen := h.length_eq
      simpa [joinPairs, partners] using hlen.symm
  · rintro ⟨hall, hleft⟩
    rw [joinPairs_congr hall]
    cases jt with
    | inner => exact .refl _
    | left =>
      cases m with
      | zero => simp [joinPairs, hleft rfl rfl]
      | succ m => simp [joinPairs, partners]

/-! ## Rows -/

namespace ExecTable

/-- The rows of a table. -/
def rows (t : ExecTable) : List (List UInt64) := (List.range t.rowCount).map t.row

theorem rows_ofRows {H : Host} {rows : List (List UInt64)}
    (h : ∀ r ∈ rows, r.length = left.columns.length + right.columns.length) :
    (ofRows H left right rows).rows = rows := by
  refine ext_getElem (by simp [ExecTable.rows, ofRows]) fun i h₁ h₂ => ?_
  have hlen := h _ (getElem_mem h₂)
  refine ext_getElem (by simp [ExecTable.rows, row, ofRows, hlen]) fun c hc₁ hc₂ => ?_
  simp [ExecTable.rows, row, ofRows, h₂, hc₂]

end ExecTable

theorem length_pairRow {p : Nat × Option Nat} :
    (pairRow left right p).length = left.columns.length + right.columns.length := by
  cases h : p.2 <;> simp [pairRow, h, row]

theorem rows_crossJoin :
    (crossJoin H left right).rows = (allPairs left right).map (pairRow left right) := by
  by_cases h : left.rowCount = 0 ∨ right.rowCount = 0
  · have hnone : allPairs left right = [] := by
      rcases h with h | h <;> simp [allPairs, h]
    rw [crossJoin, if_pos h, hnone]
    rfl
  · have hrows : ((List.range left.rowCount).flatMap fun l =>
        (List.range right.rowCount).map fun r => left.row l ++ right.row r) =
        (allPairs left right).map (pairRow left right) := by
      simp [allPairs, pairRow, map_flatMap, Function.comp_def]
    rw [crossJoin, if_neg h, hrows]
    refine rows_ofRows fun r hr => ?_
    obtain ⟨p, _, rfl⟩ := mem_map.mp hr
    exact length_pairRow

/-- The rows of a join are those of its pairs. -/
theorem hashJoin_rows {M : Machine} {ev : Evaluator} {on : Expr2} {pairs : List (Nat × Option Nat)}
    (h : hashJoinPairs M ev left right on jt = pure pairs) :
    ∃ T, hashJoin M ev left right on jt = pure T ∧ T.rows = pairs.map (pairRow left right) := by
  cases hkeys : joinKeysDirect M.host left right on.conjuncts with
  | nil =>
    refine ⟨crossJoin M.host left right, by rw [hashJoin, hkeys], ?_⟩
    rw [hashJoinPairs, hkeys] at h
    rw [rows_crossJoin, Exec.pure_inj h]
  | cons k ks =>
    rw [hashJoinPairs, hkeys] at h
    refine ⟨ofRows M.host left right (pairs.map (pairRow left right)), ?_, ?_⟩
    · rw [hashJoin, hkeys]
      dsimp only at h ⊢
      rw [h, pure_bind]
    · refine rows_ofRows fun r hr => ?_
      obtain ⟨p, _, rfl⟩ := mem_map.mp hr
      exact length_pairRow

/-! ## ON conditions -/

/-- The column a name of an ON condition stands for. A name that both sides have is ambiguous. -/
def resolvePair (H : Host) (left right : ExecTable) (name : String) : Option (Nat ⊕ Nat) :=
  match left.lookupCol H name, right.lookupCol H name with
  | some c, none => some (.inl c)
  | none, some c => some (.inr c)
  | _, _ => none

/-- The integers of a pair of rows. -/
def pairEnv (left right : ExecTable) (l r : Nat) : Nat ⊕ Nat → Int
  | .inl c => signedOf (left.cell c l)
  | .inr c => signedOf (right.cell c r)

/-- A conjunction of comparisons between columns of either side and literals. -/
structure OnCondition (H : Host) (left right : ExecTable) where
  expr : Expr2
  readable : ∀ e ∈ expr.conjuncts, ∃ c, comparison? (resolvePair H left right) e = some c ∧ c.Fits

namespace Comparison

/-- The columns of an equality between a column of either side. -/
def crossKey? : Comparison (Nat ⊕ Nat) → Option JoinKey2
  | ⟨.eq, .column (.inl l), .column (.inr r)⟩ => some ⟨l, r⟩
  | ⟨.eq, .column (.inr r), .column (.inl l)⟩ => some ⟨l, r⟩
  | _ => none

def isColumnEquality {κ : Type} : Comparison κ → Bool
  | ⟨.eq, .column _, .column _⟩ => true
  | _ => false

end Comparison

namespace OnCondition

variable {H : Host} {left right : ExecTable} (on : OnCondition H left right)

/-- What the conjuncts say. -/
def comparisons : List (Comparison (Nat ⊕ Nat)) :=
  on.expr.conjuncts.filterMap (comparison? (resolvePair H left right))

/-- Whether a pair of rows satisfies ON. -/
def satisfied (l r : Nat) : Bool := on.comparisons.all (·.holds (pairEnv left right l r))

/-- The pairs an inner or outer join has to return. -/
def pairs (jt : JoinType2) : List (Nat × Option Nat) :=
  joinPairs left.rowCount right.rowCount on.satisfied jt

/-- The cross-table equalities hold. -/
def keysAgree (l r : Nat) : Bool :=
  on.comparisons.all fun c => c.crossKey?.isNone || c.holds (pairEnv left right l r)

/-- The conjuncts other than equalities of columns hold for the integers rounded to doubles. -/
def restAsDoubles (l r : Nat) : Bool :=
  on.comparisons.all fun c => c.isColumnEquality || c.holdsAsDoubles (pairEnv left right l r)

def hasKey : Bool := on.comparisons.any fun c => c.crossKey?.isSome

end OnCondition

/-- When a join keeps to its condition. With a cross-table equality: of the pairs that satisfy these
equalities, those that satisfy ON are the ones whose conjuncts other than equalities of columns hold
for the integers rounded to doubles. Without one: every pair satisfies ON, and an outer join has a
right row or no left row. -/
def OnKept {H : Host} {left right : ExecTable} (on : OnCondition H left right) (jt : JoinType2) :
    Prop :=
  if on.hasKey then
    ∀ l < left.rowCount, ∀ r < right.rowCount, on.keysAgree l r = true →
      on.restAsDoubles l r = on.satisfied l r
  else
    (∀ l < left.rowCount, ∀ r < right.rowCount, on.satisfied l r = true) ∧
      (jt = .left → right.rowCount = 0 → left.rowCount = 0)

/-! ## Keys -/

theorem signedOf_injective : Function.Injective signedOf := by
  intro a b h
  have ha := a.toNat_lt
  have hb := b.toNat_lt
  unfold signedOf at h
  apply UInt64.toNat_inj.mp
  split at h <;> split at h <;> omega

variable {c : Nat} {name : String} {κ : Type} {resolve : String → Option κ} {e : Expr2}

theorem resolvePair_eq_inl :
    resolvePair H left right name = some (.inl c) ↔
      left.lookupCol H name = some c ∧ right.lookupCol H name = none := by
  unfold resolvePair
  split <;> simp_all

theorem resolvePair_eq_inr :
    resolvePair H left right name = some (.inr c) ↔
      left.lookupCol H name = none ∧ right.lookupCol H name = some c := by
  unfold resolvePair
  split <;> simp_all

theorem operand?_eq_column {k : κ}
    (h : operand? resolve e = some (.column k)) : ∃ name, e = .col name ∧
      resolve name = some k := by
  cases e with
  | col name =>
    obtain ⟨k', hk, hcol⟩ := Option.map_eq_some_iff.mp h
    exact ⟨name, rfl, (Operand.column.inj hcol) ▸ hk⟩
  | neg e => cases e <;> simp [operand?] at h
  | _ => simp [operand?] at h

theorem operand?_eq_literal {n : Int}
    (h : operand? resolve e = some (.literal n)) : ∀ name, e ≠ .col name := by
  rintro name rfl
  simp [operand?] at h

variable {c : Comparison (Nat ⊕ Nat)}

/-- The key of a conjunct is that of its comparison. -/
theorem eqKey_eq (h : comparison? (resolvePair H left right) e = some c) :
    eqKey H left right e = c.crossKey? := by
  obtain ⟨op, l, r, rfl, hop, hl, hr⟩ := comparison?_eq_some.mp h
  obtain ⟨R, lhs, rhs⟩ := c
  cases op <;>
    simp only [BinOp2.relation?, reduceCtorEq, Option.some.injEq] at hop <;> subst hop <;> try rfl
  cases lhs with
  | literal n =>
    have hcol : ∀ t : ExecTable, t.colIn H l = none := fun t => by
      cases l <;> first | rfl | exact absurd rfl (operand?_eq_literal hl _)
    simp [eqKey, hcol, Comparison.crossKey?]
  | column k =>
    cases rhs with
    | literal n =>
      have hcol : ∀ t : ExecTable, t.colIn H r = none := fun t => by
        cases r <;> first | rfl | exact absurd rfl (operand?_eq_literal hr _)
      cases k <;> simp [eqKey, hcol, Comparison.crossKey?]
    | column k' =>
      obtain ⟨ln, rfl, hln⟩ := operand?_eq_column hl
      obtain ⟨rn, rfl, hrn⟩ := operand?_eq_column hr
      cases k <;> cases k' <;>
        simp only [resolvePair_eq_inl, resolvePair_eq_inr] at hln hrn <;>
        simp [eqKey, colIn, hln, hrn, Comparison.crossKey?]

theorem isColEq_eq {c : Comparison κ}
    (h : comparison? resolve e = some c) : isColEq e = c.isColumnEquality := by
  obtain ⟨op, l, r, rfl, hop, hl, hr⟩ := comparison?_eq_some.mp h
  obtain ⟨R, lhs, rhs⟩ := c
  cases op <;>
    simp only [BinOp2.relation?, reduceCtorEq, Option.some.injEq] at hop <;> subst hop <;> try rfl
  cases lhs with
  | literal n => cases l <;> first | rfl | exact absurd rfl (operand?_eq_literal hl _)
  | column k =>
    obtain ⟨ln, rfl, -⟩ := operand?_eq_column hl
    cases rhs with
    | literal n => cases r <;> first | rfl | exact absurd rfl (operand?_eq_literal hr _)
    | column k' =>
      obtain ⟨rn, rfl, -⟩ := operand?_eq_column hr
      rfl

theorem crossKey?_holds {key : JoinKey2} (h : c.crossKey? = some key) :
    c.holds (pairEnv left right l r) =
      decide (left.cell key.left l = right.cell key.right r) := by
  unfold Comparison.crossKey? at h
  split at h <;> simp only [Option.some.injEq, reduceCtorEq] at h <;> subst h <;>
    simp [Comparison.holds, Relation.holds, Relation.test, Operand.value, pairEnv,
      signedOf_injective.eq_iff, eq_comm]

/-! ## Names of a pair of rows -/

section

variable {name : String}

variable {M : Machine} (left right : IntTable M.host)

theorem lookup_map_snd {α β γ : Type} [BEq α] (f : β → γ) (l : List (α × β)) {k : α} :
    (l.map fun p => (p.1, f p.2)).lookup k = (l.lookup k).map f := by
  induction l with
  | nil => rfl
  | cons p l ih =>
    rw [map_cons, lookup_cons, lookup_cons]
    cases k == p.1
    · exact ih
    · rfl

/-- The bare names of the columns are among those the sides have. -/
theorem lookup_bare (hl : left.table.colMap.lookup name = none)
    (hr : right.table.colMap.lookup name = none) :
    ((left.table.columnNames ++ right.table.columnNames).zipIdx.map fun p =>
      (M.host.toLowercase p.1, p.2)).lookup name = none := by
  rw [lookup_eq_none_iff]
  intro p hp
  obtain ⟨q, hq, rfl⟩ := mem_map.mp hp
  rw [bne_iff_ne]
  rintro rfl
  rcases mem_append.mp (fst_mem_of_mem_zipIdx hq) with hmem | hmem
  · simpa [hl] using left.named _ hmem
  · simpa [hr] using right.named _ hmem

theorem colMap_pairTable_lookup :
    (pairTable M.host left.table right.table l r).colMap.lookup name =
      ((right.table.colMap.lookup name).map (· + left.table.columns.length)).or
        (left.table.colMap.lookup name) := by
  simp only [pairTable, ofRows, lookup_append,
    lookup_map_snd (· + left.table.columns.length) right.table.colMap]
  cases hr : right.table.colMap.lookup name with
  | some c => simp
  | none =>
    cases hl : left.table.colMap.lookup name with
    | some c => simp
    | none => simp only [Option.map_none, Option.none_or]; exact lookup_bare left right hl hr

theorem lookupCol_eq_none {t : ExecTable} : t.lookupCol H name = none ↔
    t.colMap.lookup name = none ∧ t.colMap.lookup (H.toLowercase name) = none := by
  rw [lookupCol]
  cases t.colMap.lookup name <;> simp

theorem lookupCol_pairTable_left {c : Nat} (hl : left.table.lookupCol M.host name = some c)
    (hr : right.table.lookupCol M.host name = none) :
    (pairTable M.host left.table right.table l r).lookupCol M.host name = some c := by
  obtain ⟨hr₁, hr₂⟩ := lookupCol_eq_none.mp hr
  rw [lookupCol, colMap_pairTable_lookup, colMap_pairTable_lookup, hr₁, hr₂]
  exact hl

theorem lookupCol_pairTable_right {c : Nat} (hl : left.table.lookupCol M.host name = none)
    (hr : right.table.lookupCol M.host name = some c) :
    (pairTable M.host left.table right.table l r).lookupCol M.host name =
      some (c + left.table.columns.length) := by
  obtain ⟨hl₁, hl₂⟩ := lookupCol_eq_none.mp hl
  rw [lookupCol, colMap_pairTable_lookup, colMap_pairTable_lookup, hl₁, hl₂]
  rw [lookupCol] at hr
  cases hname : right.table.colMap.lookup name with
  | some c' => rw [hname] at hr; rw [Option.some.inj hr]; rfl
  | none => rw [hname] at hr; dsimp only at hr; rw [hr]; rfl

theorem cell_pairTable_left {c : Nat} (h : c < left.table.columns.length) :
    (pairTable M.host left.table right.table l r).cell c 0 = left.table.cell c l := by
  have hc : c < left.table.columns.length + right.table.columns.length := by omega
  simp [pairTable, ofRows, cell, row, h, hc]

theorem cell_pairTable_right {c : Nat} (h : c < right.table.columns.length) :
    (pairTable M.host left.table right.table l r).cell (c + left.table.columns.length) 0 =
      right.table.cell c r := by
  have hc : c + left.table.columns.length <
      left.table.columns.length + right.table.columns.length := by
    omega
  simp [pairTable, ofRows, cell, row, h, hc]

theorem types_pairTable : (pairTable M.host left.table right.table l r).colTypes =
    List.replicate (left.table.columns.length + right.table.columns.length) .int := by
  simp [pairTable, ofRows, left.types, right.types]

theorem length_columns_pairTable :
    (pairTable M.host left.table right.table l r).columns.length =
      left.table.columns.length + right.table.columns.length := by
  simp [pairTable, ofRows]

/-- In the table of a pair every name has the value it has in the pair. -/
theorem evalColumn_pairTable {outer : Outer} {k : Nat ⊕ Nat}
    (h : resolvePair M.host left.table right.table name = some k) :
    evalColumn M outer name (pairTable M.host left.table right.table l r) 0 =
      pure (.int (pairEnv left.table right.table l r k)) := by
  cases k with
  | inl c =>
    obtain ⟨hl, hr⟩ := resolvePair_eq_inl.mp h
    have hlt := left.lookup_lt hl
    rw [evalColumn_int (lookupCol_pairTable_left left right hl hr),
      cell_pairTable_left left right hlt]
    · rfl
    · rw [types_pairTable, getElem?_replicate, if_pos (by omega)]
    · rw [length_columns_pairTable]; omega
  | inr c =>
    obtain ⟨hl, hr⟩ := resolvePair_eq_inr.mp h
    have hlt := right.lookup_lt hr
    rw [evalColumn_int (lookupCol_pairTable_right left right hl hr),
      cell_pairTable_right left right hlt]
    · rfl
    · rw [types_pairTable, getElem?_replicate, if_pos (by omega)]
    · rw [length_columns_pairTable]; omega

end

/-! ## The tests of the join -/

section

variable {M : Machine} {cat : Catalog} {L : Level} {outer : Outer} {left right : IntTable M.host}
  (on : OnCondition M.host left.table right.table)

theorem refsTable_of_lookup {t : ExecTable}
    (hmem : name ∈ e.columns) (h : (t.lookupCol H name).isSome) : refsTable H e t = true := by
  rw [refsTable, any_eq_true]
  exact ⟨name, hmem, by rw [h, Bool.true_or]⟩

/-- A conjunct is evaluated on one side, or on the table of the pair, with the same outcome. -/
theorem conjunctPasses_eq (hc : comparison? (resolvePair M.host left.table right.table) e = some c)
    (hfits : c.Fits) : conjunctPasses M (evaluator M cat L outer) left.table right.table l r e =
      pure (c.holdsAsDoubles (pairEnv left.table right.table l r)) := by
  have hpair : eval M cat L outer (pairTable M.host left.table right.table l r) 0 e =
      pure (.ofBool (c.holdsAsDoubles (pairEnv left.table right.table l r))) :=
    eval_comparison hc hfits fun name _ k hk => evalColumn_pairTable left right hk
  unfold conjunctPasses evaluator
  split
  case h_1 hrefsl hrefsr =>
    -- only the right side has the columns
    have hright : eval M cat L outer right.table r e =
        pure (.ofBool (c.holdsAsDoubles (pairEnv left.table right.table l r))) := by
      refine eval_comparison hc hfits fun name hmem k hk => ?_
      cases k with
      | inl c =>
        have := refsTable_of_lookup hmem (Option.isSome_of_eq_some (resolvePair_eq_inl.mp hk).1)
        exact absurd (this.symm.trans hrefsl) (by decide)
      | inr c => exact right.evalColumn (resolvePair_eq_inr.mp hk).2
    rw [hright, pure_bind]
    exact congrArg pure Value2.truthy_ofBool
  case h_2 hrefsl hrefsr =>
    have hleft : eval M cat L outer left.table l e =
        pure (.ofBool (c.holdsAsDoubles (pairEnv left.table right.table l r))) := by
      refine eval_comparison hc hfits fun name hmem k hk => ?_
      cases k with
      | inl c => exact left.evalColumn (resolvePair_eq_inl.mp hk).1
      | inr c =>
        have := refsTable_of_lookup hmem (Option.isSome_of_eq_some (resolvePair_eq_inr.mp hk).2)
        exact absurd (this.symm.trans hrefsr) (by decide)
    rw [hleft, pure_bind]
    exact congrArg pure Value2.truthy_ofBool
  case h_3 =>
    rw [hpair, pure_bind]
    exact congrArg pure Value2.truthy_ofBool

theorem keepM_pure {α : Type} {p : α → Bool} {l : List α} :
    keepM (fun a => pure (p a)) l = pure (l.filter p) := by
  induction l with
  | nil => rfl
  | cons a l ih =>
    rw [keepM, pure_bind, ih, pure_bind, filter_cons]

theorem all_comparisons {p : Comparison (Nat ⊕ Nat) → Bool} {q : Expr2 → Bool}
    (h : ∀ e c, comparison? (resolvePair M.host left.table right.table) e = some c → q e = p c) :
    on.expr.conjuncts.all q = on.comparisons.all p := by
  rw [OnCondition.comparisons, all_filterMap, Bool.eq_iff_iff, all_eq_true, all_eq_true]
  refine forall₂_congr fun e he => ?_
  obtain ⟨c, hc, -⟩ := on.readable e he
  rw [hc, h e c hc]

/-- The conjuncts that are tested on a pair. -/
theorem evalNonEquiMatch_eq :
    evalNonEquiMatch M (evaluator M cat L outer) left.table right.table
      (on.expr.conjuncts.filter fun c => !isColEq c) l r = pure (on.restAsDoubles l r) := by
  let test : Expr2 → Bool := fun e =>
    ((comparison? (resolvePair M.host left.table right.table) e).map
      (·.holdsAsDoubles (pairEnv left.table right.table l r))).getD true
  have hpass : ∀ e ∈ on.expr.conjuncts.filter fun c => !isColEq c,
      conjunctPasses M (evaluator M cat L outer) left.table right.table l r e = pure (test e) := by
    intro e he
    obtain ⟨c, hc, hfits⟩ := on.readable e (mem_of_mem_filter he)
    rw [conjunctPasses_eq hc hfits]
    simp [test, hc]
  rw [evalNonEquiMatch, allM_eq_pure hpass, all_filter, OnCondition.restAsDoubles]
  refine congrArg pure (all_comparisons on fun e c hc => ?_)
  rw [isColEq_eq hc]
  simp [test, hc]

/-- Rows with equal keys are those that satisfy the cross-table equalities. -/
theorem keyCells_eq_iff :
    (keyCells right.table ((on.comparisons.filterMap Comparison.crossKey?).map (·.right)) r =
      keyCells left.table ((on.comparisons.filterMap Comparison.crossKey?).map (·.left)) l) ↔
      on.keysAgree l r = true := by
  unfold OnCondition.keysAgree
  induction on.comparisons with
  | nil => simp [keyCells]
  | cons c cs ih =>
    rw [all_cons, Bool.and_eq_true, ← ih]
    cases hkey : c.crossKey? with
    | none => simp [hkey]
    | some key =>
      rw [crossKey?_holds hkey]
      simp [hkey, keyCells, eq_comm]

theorem joinKeysDirect_eq : joinKeysDirect M.host left.table right.table on.expr.conjuncts =
    on.comparisons.filterMap Comparison.crossKey? := by
  rw [joinKeysDirect, OnCondition.comparisons, filterMap_filterMap]
  refine filterMap_congr fun e he => ?_
  obtain ⟨c, hc, -⟩ := on.readable e he
  rw [eqKey_eq hc, hc]
  rfl

theorem hasKey_eq_true : on.hasKey = true ↔ on.comparisons.filterMap Comparison.crossKey? ≠ [] := by
  rw [OnCondition.hasKey, any_eq_true, Ne, filterMap_eq_nil_iff]
  simp [Option.isSome_iff_ne_none]

/-- The pairs of a join with a key. -/
theorem keyedPairs_eq (cat : Catalog) (L : Level) (outer : Outer) (jt : JoinType2) :
    keyedPairs M (evaluator M cat L outer) left.table right.table on.expr
      (on.comparisons.filterMap Comparison.crossKey?) jt =
      pure (joinPairs left.table.rowCount right.table.rowCount
        (fun l r => on.keysAgree l r && on.restAsDoubles l r) jt) := by
  have hfound : ∀ l, Multimap.get (Multimap.ofPairs ((List.range right.table.rowCount).map fun r =>
      (keyCells right.table ((on.comparisons.filterMap Comparison.crossKey?).map (·.right)) r, r)))
      (keyCells left.table ((on.comparisons.filterMap Comparison.crossKey?).map (·.left)) l) =
      (List.range right.table.rowCount).filter (on.keysAgree l) := by
    intro l
    rw [Multimap.get_ofPairs, filter_map, map_map]
    simp only [Function.comp_def, map_id']
    refine filter_congr fun r _ => ?_
    rw [Bool.eq_iff_iff, decide_eq_true_iff]
    exact keyCells_eq_iff on
  have hrest : ∀ l, evalNonEquiMatch M (evaluator M cat L outer) left.table right.table
      (on.expr.conjuncts.filter fun c => !isColEq c) l = fun r => pure (on.restAsDoubles l r) :=
    fun l => funext fun r => evalNonEquiMatch_eq on
  simp only [keyedPairs, hfound, hrest, keepM_pure, pure_bind, mapM_pure, filter_filter,
    joinPairs, flatMap_def]
  simp only [Bool.and_comm]

/-- What the join puts out: with a key the pairs that agree on it and pass the conjuncts that are no
equality of columns, without a key all pairs. -/
theorem hashJoinPairs_eq (cat : Catalog) (L : Level) (outer : Outer) (jt : JoinType2) :
    hashJoinPairs M (evaluator M cat L outer) left.table right.table on.expr jt =
      pure (if on.hasKey then joinPairs left.table.rowCount right.table.rowCount
          (fun l r => on.keysAgree l r && on.restAsDoubles l r) jt
        else joinPairs left.table.rowCount right.table.rowCount (fun _ _ => true) .inner) := by
  rw [hashJoinPairs, joinKeysDirect_eq on]
  cases hkeys : on.comparisons.filterMap Comparison.crossKey? with
  | nil =>
    have hno : ¬on.hasKey = true := fun h => (hasKey_eq_true on).mp h hkeys
    rw [if_neg hno, allPairs_eq]
  | cons k ks =>
    have hyes : on.hasKey = true := (hasKey_eq_true on).mpr (by rw [hkeys]; exact cons_ne_nil k ks)
    rw [if_pos hyes, ← hkeys]
    have hkeyed := keyedPairs_eq on cat L outer jt
    rw [hkeys] at hkeyed ⊢
    exact hkeyed

/-- Every pair that satisfies ON satisfies the cross-table equalities. -/
theorem keysAgree_of_satisfied (h : on.satisfied l r = true) : on.keysAgree l r = true := by
  rw [OnCondition.satisfied, all_eq_true] at h
  rw [OnCondition.keysAgree, all_eq_true]
  intro c hc
  rw [h c hc, Bool.or_true]

end

section

variable (M : Machine) (cat : Catalog) (L : Level) (outer : Outer) (left right : IntTable M.host)

/-- A join returns the rows of the pairs that satisfy ON, and for an outer join each left row
without a partner once, exactly if `OnKept` holds. -/
theorem hashJoin_exact_iff (on : OnCondition M.host left.table right.table) (jt : JoinType2) :
    ∃ T pairs, hashJoin M (evaluator M cat L outer) left.table right.table on.expr jt = pure T ∧
      hashJoinPairs M (evaluator M cat L outer) left.table right.table on.expr jt = pure pairs ∧
      T.rows = pairs.map (pairRow left.table right.table) ∧
      (pairs.Perm (on.pairs jt) ↔ OnKept on jt) := by
  have hpairs := hashJoinPairs_eq on cat L outer jt
  obtain ⟨T, hT, hrows⟩ := hashJoin_rows hpairs
  refine ⟨T, _, hT, hpairs, hrows, ?_⟩
  unfold OnKept OnCondition.pairs
  by_cases hkey : on.hasKey = true
  · rw [if_pos hkey, if_pos hkey, joinPairs_perm_iff]
    refine forall₂_congr fun l _ => forall₂_congr fun r _ => ?_
    cases hagree : on.keysAgree l r with
    | true => simp
    | false =>
      have hnot : on.satisfied l r = false := by
        cases hsat : on.satisfied l r with
        | false => rfl
        | true => exact absurd (hagree.symm.trans (keysAgree_of_satisfied on hsat)) (by decide)
      simp [hnot]
  · rw [if_neg hkey, if_neg hkey, joinPairs_true_perm_iff]

end

/-! ## A join without a key -/

/-- A table with one column. -/
def IntTable.single (name column : String) (cells : List UInt64) : IntTable Host.ascii where
  table :=
    { columns := [cells]
      columnNames := [column]
      colTypes := [.int]
      stringColumns := [none]
      rowCount := cells.length
      colMap := (columnKeys Host.ascii name name column).map fun key => (key, 0) }
  full := by simp
  types := rfl
  colMap_lt := by
    intro p hp
    obtain ⟨key, _, rfl⟩ := mem_map.mp hp
    exact Nat.one_pos
  named := by
    intro c hc
    rw [mem_singleton.mp hc, columnKeys, map_cons, lookup_cons, beq_self_eq_true]
    rfl

/-- `t.a > u.b`. -/
def greaterOn : OnCondition Host.ascii (IntTable.single "t" "a" [1, 2]).table
    (IntTable.single "u" "b" [3]).table where
  expr := .binOp .gt (.col "t.a") (.col "u.b")
  readable := by
    intro e he
    obtain rfl := mem_singleton.mp he
    exact ⟨⟨.gt, .column (.inl 0), .column (.inr 0)⟩, by decide +kernel, by decide⟩

/-- `t JOIN u ON t.a > u.b` returns the cross product of `1, 2` and `3`, of which no pair satisfies
the condition. -/
theorem hashJoin_ignores_condition :
    (∃ T, hashJoin Machine.plain
        (evaluator Machine.plain .empty (interpreter Machine.plain .empty 0) none)
        (IntTable.single "t" "a" [1, 2]).table (IntTable.single "u" "b" [3]).table greaterOn.expr
        .inner = pure T ∧ T.rows = [[1, 3], [2, 3]]) ∧
      greaterOn.pairs .inner = [] := by
  have hkeys : joinKeysDirect Machine.plain.host (IntTable.single "t" "a" [1, 2]).table
      (IntTable.single "u" "b" [3]).table greaterOn.expr.conjuncts = [] := by decide +kernel
  refine ⟨⟨crossJoin Machine.plain.host (IntTable.single "t" "a" [1, 2]).table
    (IntTable.single "u" "b" [3]).table, ?_, by decide +kernel⟩, by decide +kernel⟩
  rw [hashJoin, hkeys]

end TensorVault.Tpch
