import TensorVault.Engine.Compound

/-!
# Queries

A query is a text that `execute` answers from the catalog, the indexes, the views and the copies of
versioned tables. It may write to the catalog (a view is registered as a table), but engines that
agree on these four parts answer a whole list of queries alike (`answers_eq`).
-/

namespace TensorVault

open Text Sql List

namespace QueryEngine

/-! ## Which texts are queries -/

section

variable (H : Host) (F : Frontend) (V : List ViewDef)

/-- The parts of the statement are queries, and so are the views it mentions. -/
def QueryKind (query : String → Prop) (sql : String) : Kind → Prop
  | .withClause w => (∀ cte ∈ w.ctes, CteTexts query cte) ∧ query w.outerQuery
  | .unionAll left right => query left ∧ query right
  | .pivot stripped _ => query stripped
  | .jsonValue rewritten _ => query rewritten
  | .select =>
    ∀ v ∈ V, contains (H.toLowercase sql) ("from " ++ H.toLowercase v.name) = true →
      query v.selectSql
  | .fail _ => True
  | .abort => True
  | _ => False

def QueryText (query : String → Prop) (sql : String) : Prop :=
  ∃ asOf kind, innerRoute H F sql = .statement asOf kind ∧ QueryKind H V query sql kind

/-- A query for `executeInner n`; past the depth of the stack every text ends the process. -/
def InnerQuery : Nat → String → Prop
  | 0 => QueryText H F V fun _ => True
  | n + 1 => QueryText H F V (InnerQuery n)

/-- A query, with `V` the views there are. -/
@[irreducible] def IsQuery (n : Nat) (sql : String) : Prop :=
  match outerRoute H sql with
  | .explain _ => True
  | .inner => InnerQuery H F V n sql
  | _ => False

end

/-- The replies to a list of queries; `none` where the process ends. -/
def answers (H : Host) (F : Frontend) (n : Nat) :
    QueryEngine → List String → List (Option (Except Error QueryResult))
  | _, [] => []
  | e, sql :: rest =>
    match execute H F n e sql with
    | none => [none]
    | some (e', r) => some r :: answers H F n e' rest

/-! ## What queries read -/

/-- Two engines without an open transaction that agree on what queries read. -/
structure SameData (V : List ViewDef) (e e' : QueryEngine) : Prop where
  catalog : e'.catalog = e.catalog
  indexManager : e'.indexManager = e.indexManager
  views : e.views = V
  views' : e'.views = V
  temporals : e'.temporals = e.temporals
  idle : e.txnManager.active = none
  idle' : e'.txnManager.active = none

theorem SameData.readRel {V : List ViewDef} : ReadRel (SameData V) where
  catalog h := h.catalog
  indexManager h := h.indexManager
  views h := h.views'.trans h.views.symm
  setCatalog h _ := { h with catalog := rfl }

section Congruence

variable {H : Host} {F : Frontend} {V : List ViewDef} {query : String → Prop}
  {exec : QueryEngine → String → Reply} {inner : QueryEngine → String → Option UInt64 → Reply}
  {sql : String} {e e' : QueryEngine} {n : Nat}

theorem executeKind_query {S : QueryEngine → QueryEngine → Prop} (hread : ReadRel S)
    {i j : Option UInt64} (hinner : InnerRel S query inner i j)
    (hviews : InnerRel S query inner none none) {kind : Kind}
    (hkind : QueryKind H e.views query sql kind) (h : S e e') :
    ReplyRel S (executeKind H F exec inner e sql i kind)
      (executeKind H F exec inner e' sql j kind) := by
  cases kind with
  | withClause w => exact executeWith_rel hread hinner hkind.1 hkind.2 h
  | unionAll left right => exact executeUnionAll_rel hinner hkind.1 hkind.2 h
  | pivot _ post | jsonValue _ post => exact executeRewritten_rel hinner hkind h
  | select =>
    refine executeSelectText_rel hread hviews (fun v hv => ?_) h
    obtain ⟨hmem, hmentioned⟩ := mem_filter.mp hv
    exact hkind v hmem hmentioned
  | fail err => exact .fail h
  | abort => exact .none
  | createView | dropView | createProcedure | exec | merge | ddl | dml => exact hkind.elim

theorem executeInnerStep_query
    (hinner : ∀ i, InnerRel (SameData V) query inner i i) (i : Option UInt64) :
    InnerRel (SameData V) (QueryText H F V query) (executeInnerStep H F exec inner) i i := by
  rintro e e' h sql ⟨asOf, kind, hroute, hkind⟩
  have hrows : e'.asOfRows asOf = e.asOfRows asOf := by
    unfold asOfRows
    rw [h.temporals]
  unfold executeInnerStep
  rw [hroute]
  simp only [hrows]
  split
  · exact .reply h
  · exact executeKind_query SameData.readRel (hinner i) (hinner none) (by rwa [h.views]) h

theorem executeInner_query (H : Host) (F : Frontend) (V : List ViewDef) (n : Nat)
    (i : Option UInt64) : InnerRel (SameData V) (InnerQuery H F V n) (executeInner H F n) i i := by
  induction n generalizing i with
  | zero => exact executeInnerStep_query (fun _ _ _ _ _ _ => .none) i
  | succ n ih => exact executeInnerStep_query ih i

theorem execute_query (hsql : IsQuery H F V n sql) (h : SameData V e e') :
    ReplyRel (SameData V) (execute H F n e sql) (execute H F n e' sql) := by
  unfold IsQuery at hsql
  unfold execute executeStep
  split at hsql
  · next hroute =>
    rw [hroute]
    simp only [executeExplain, h.catalog]
    split
    · exact .reply h
    · exact .fail h
  · next hroute =>
    rw [hroute]
    simp only [executeRouted, h.idle, h.idle']
    exact executeInner_query H F V n none h sql hsql
  · exact hsql.elim

/-- Engines that agree on what queries read give the same answers. -/
theorem answers_eq {queries : List String} (hqueries : ∀ q ∈ queries, IsQuery H F V n q)
    (h : SameData V e e') : answers H F n e' queries = answers H F n e queries := by
  induction queries generalizing e e' with
  | nil => rfl
  | cons q queries ih =>
    have hreply := execute_query (hqueries q mem_cons_self) h
    unfold answers
    revert hreply
    generalize execute H F n e q = x
    generalize execute H F n e' q = y
    intro hreply
    cases hreply with
    | none => rfl
    | some hu r =>
      exact congrArg _ (ih (forall_mem_cons.mp hqueries).2 hu)

end Congruence

end QueryEngine

end TensorVault
