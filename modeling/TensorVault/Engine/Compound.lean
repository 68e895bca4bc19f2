import TensorVault.Engine.Execute

/-!
# Compound statements, relationally

WITH, UNION ALL, PIVOT, JSON_VALUE and SELECT over views hand their parts to `execute_inner`. A
relation between two engines that the parts keep is kept by the compound statements
(`executeWith_rel` and so on), if it fixes what is read on the way and allows the catalog to be
replaced (`ReadRel`). If it also allows what transaction control and maintenance change, it is kept
by every statement (`executeStep_rel`).
-/

namespace TensorVault

open Text Sql List

namespace QueryEngine

/-- Related engines agree on what compound statements read. -/
structure ReadRel (S : QueryEngine → QueryEngine → Prop) : Prop where
  catalog : ∀ {e e'}, S e e' → e'.catalog = e.catalog
  indexManager : ∀ {e e'}, S e e' → e'.indexManager = e.indexManager
  views : ∀ {e e'}, S e e' → e'.views = e.views
  setCatalog : ∀ {e e'}, S e e' → ∀ cat, S { e with catalog := cat } { e' with catalog := cat }

/-- Two replies with the same result and related engines. -/
inductive ReplyRel (S : QueryEngine → QueryEngine → Prop) : Reply → Reply → Prop where
  | none : ReplyRel S none none
  | some {e e' : QueryEngine} (h : S e e') (r : Except Error QueryResult) :
      ReplyRel S (some (e, r)) (some (e', r))

/-- A callback keeps engines related, on the texts that meet `P`. -/
def InnerRel (S : QueryEngine → QueryEngine → Prop) (P : String → Prop)
    (inner : QueryEngine → String → Option UInt64 → Reply) (i j : Option UInt64) : Prop :=
  ∀ ⦃e e' : QueryEngine⦄, S e e' → ∀ sql, P sql → ReplyRel S (inner e sql i) (inner e' sql j)

section Replies

variable {S : QueryEngine → QueryEngine → Prop} {e e' : QueryEngine}

theorem ReplyRel.andThen {x y : Reply} (h : ReplyRel S x y)
    {k l : QueryEngine → QueryResult → Reply}
    (hk : ∀ {e e' : QueryEngine} (qr : QueryResult), S e e' → ReplyRel S (k e qr) (l e' qr)) :
    ReplyRel S (x.andThen k) (y.andThen l) := by
  cases h with
  | none => exact .none
  | some h r =>
    cases r with
    | ok qr => exact hk qr h
    | error err => exact .some h _

theorem ReplyRel.reply (h : S e e') {qr : QueryResult} :
    ReplyRel S (e.reply qr) (e'.reply qr) := .some h _

theorem ReplyRel.fail (h : S e e') {err : Error} :
    ReplyRel S (e.fail err) (e'.fail err) := .some h _

end Replies

section Compound

variable {S : QueryEngine → QueryEngine → Prop} (hS : ReadRel S) {P : String → Prop}
  {inner : QueryEngine → String → Option UInt64 → Reply} {i j : Option UInt64}
  (hinner : InnerRel S P inner i j)

include hS hinner

variable {e e' : QueryEngine} {sql : String}

theorem runRecursive_rel {name : String} (hsql : P sql) {n : Nat} (h : S e e') :
    ReplyRel S (runRecursive inner i name sql n e) (runRecursive inner j name sql n e') := by
  induction n generalizing e e' with
  | zero => exact .reply h
  | succ n ih =>
    refine (hinner h sql hsql).andThen fun {u u'} qr hu => ?_
    rw [hS.catalog hu]
    split
    · split
      · exact .reply hu
      · exact .fail hu
    · split
      · exact .reply hu
      · exact ih (hS.setCatalog hu _)

/-- The texts of a common table expression. -/
def CteTexts (P : String → Prop) (cte : CteDef) : Prop :=
  P cte.anchor ∧ ∀ sql, cte.recursive = some sql → P sql

theorem runCtes_rel {maxIter : Nat} {ctes : List CteDef} (hctes : ∀ cte ∈ ctes, CteTexts P cte)
    (h : S e e') :
    ReplyRel S (runCtes inner i maxIter ctes e) (runCtes inner j maxIter ctes e') := by
  induction ctes generalizing e e' with
  | nil => exact .reply h
  | cons cte ctes ih =>
    obtain ⟨hanchor, hrec⟩ := hctes cte mem_cons_self
    have hrest : ∀ cte ∈ ctes, CteTexts P cte := (forall_mem_cons.mp hctes).2
    refine (hinner h cte.anchor hanchor).andThen fun {u u'} qr hu => ?_
    rw [hS.catalog hu]
    simp only
    split
    · exact ih hrest (hS.setCatalog hu _)
    · next sql hsql =>
      refine (runRecursive_rel hS hinner (hrec sql hsql) (hS.setCatalog hu _)).andThen ?_
      exact fun _ hv => ih hrest hv

theorem executeWith_rel {w : WithClause} (hctes : ∀ cte ∈ w.ctes, CteTexts P cte)
    (houter : P w.outerQuery) (h : S e e') :
    ReplyRel S (executeWith inner i e w) (executeWith inner j e' w) := by
  refine (runCtes_rel hS hinner hctes h).andThen fun _ hu => ?_
  refine (hinner hu _ houter).andThen fun {v v'} qr hv => ?_
  rw [hS.catalog hv]
  exact .reply (hS.setCatalog hv _)

omit hS in
theorem executeUnionAll_rel {left right : String} (hleft : P left) (hright : P right) (h : S e e') :
    ReplyRel S (executeUnionAll inner i e left right) (executeUnionAll inner j e' left right) :=
  (hinner h left hleft).andThen fun _ hu => (hinner hu right hright).andThen fun _ hv => .reply hv

omit hS in
theorem executeRewritten_rel (hsql : P sql) {post : QueryResult → QueryResult} (h : S e e') :
    ReplyRel S (executeRewritten inner i e sql post) (executeRewritten inner j e' sql post) :=
  (hinner h sql hsql).andThen fun _ hu => .reply hu

end Compound

section Views

variable {S : QueryEngine → QueryEngine → Prop} (hS : ReadRel S) {P : String → Prop}
  {inner : QueryEngine → String → Option UInt64 → Reply} (hinner : InnerRel S P inner none none)

include hS hinner

variable {e e' : QueryEngine}

theorem materializeViews_rel {views : List ViewDef} (hviews : ∀ v ∈ views, P v.selectSql)
    (h : S e e') :
    (materializeViews inner views e = none ∧ materializeViews inner views e' = none) ∨
      ∃ u u', materializeViews inner views e = some u ∧
        materializeViews inner views e' = some u' ∧ S u u' := by
  induction views generalizing e e' with
  | nil => exact .inr ⟨e, e', rfl, rfl, h⟩
  | cons v views ih =>
    have hrest : ∀ w ∈ views, P w.selectSql := (forall_mem_cons.mp hviews).2
    simp only [materializeViews]
    have hview := hinner h v.selectSql (hviews v mem_cons_self)
    revert hview
    generalize inner e v.selectSql none = x
    generalize inner e' v.selectSql none = y
    intro hview
    cases hview with
    | none => exact .inl ⟨rfl, rfl⟩
    | some hu r =>
      cases r with
      | error err => exact ih hrest hu
      | ok qr =>
        simp only [hS.catalog hu]
        exact ih hrest (hS.setCatalog hu _)

theorem executeSelectText_rel {H : Host} {F : Frontend} {sql : String}
    (hviews : ∀ v ∈ e.mentionedViews H sql, P v.selectSql) (h : S e e') :
    ReplyRel S (executeSelectText inner H F e sql) (executeSelectText inner H F e' sql) := by
  have hsame : e'.mentionedViews H sql = e.mentionedViews H sql := by
    unfold mentionedViews
    rw [hS.views h]
  unfold executeSelectText
  rw [hsame]
  rcases materializeViews_rel hS hinner hviews h with ⟨h₁, h₂⟩ | ⟨u, u', h₁, h₂, hu⟩
  · rw [h₁, h₂]
    exact .none
  · rw [h₁, h₂]
    simp only [hS.catalog hu, hS.indexManager hu]
    split
    · exact .reply hu
    · exact .fail hu
    · exact .none

end Views

/-! ## Procedure bodies -/

variable {exec : QueryEngine → String → Reply} {e e' : QueryEngine} {P : String → Prop}
  {S : QueryEngine → QueryEngine → Prop}

theorem runBody_rel
    (hexec : ∀ ⦃e e' : QueryEngine⦄, S e e' → ∀ sql, P sql → ReplyRel S (exec e sql) (exec e' sql))
    {body : List String} (hbody : ∀ sql ∈ body, P sql) (last : QueryResult)
    (h : S e e') : ReplyRel S (runBody exec body last e) (runBody exec body last e') := by
  induction body generalizing e e' last with
  | nil => exact .reply h
  | cons sql body ih =>
    refine (hexec h sql (hbody sql mem_cons_self)).andThen fun qr hu => ?_
    exact ih (forall_mem_cons.mp hbody).2 qr hu

/-- Lines of a file, one after the other. -/
theorem copyRows_rel
    {inner : QueryEngine → String → Option UInt64 → Reply} (hinner : InnerRel S P inner none none)
    {lines : List String} (hlines : ∀ line ∈ lines, P line) (count : Nat)
    (h : S e e') : ReplyRel S (copyRows inner lines count e) (copyRows inner lines count e') := by
  induction lines generalizing e e' count with
  | nil => exact .reply h
  | cons line lines ih =>
    refine (hinner h line (hlines line mem_cons_self)).andThen fun _ hu => ?_
    exact ih (forall_mem_cons.mp hlines).2 _ hu

/-! ## Transaction control and maintenance -/

/-- Related engines differ in their transactions and logs only, and may change them alike. -/
structure ControlRel (S : QueryEngine → QueryEngine → Prop) : Prop where
  eq : ∀ {e e'}, S e e' → ∃ tm wal, e' = { e with txnManager := tm, wal := wal }
  set : ∀ {e e'}, S e e' → ∀ cat savepoints tick,
    S { e with catalog := cat, savepoints := savepoints, tick := tick }
      { e' with catalog := cat, savepoints := savepoints, tick := tick }
  vacuum : ∀ {e e'}, S e e' → ReplyRel S e.executeVacuum e'.executeVacuum
  beginTxn : ∀ {e e'}, S e e' → ReplyRel S e.executeBegin e'.executeBegin
  commit : ∀ {e e'}, S e e' → ReplyRel S e.executeCommit e'.executeCommit
  rollback : ∀ {e e'}, S e e' → ReplyRel S e.executeRollback e'.executeRollback

/-- A statement for `execute`, given the texts that are quiet for `execute_inner`. -/
def OuterQuiet (H : Host) (inner : String → Prop) (sql : String) : Prop :=
  match outerRoute H sql with
  | .analyze rest => inner rest
  | .copy text =>
    ∀ table path tick content, copyPlan H text = .from_ table path →
      H.readFile tick path = some content → ∀ line ∈ copyStatements H table content, inner line
  | .inner => inner sql
  | _ => True

section Control

variable {S : QueryEngine → QueryEngine → Prop} (hS : ControlRel S)

include hS

theorem ControlRel.readRel : ReadRel S where
  catalog h := by obtain ⟨_, _, rfl⟩ := hS.eq h; rfl
  indexManager h := by obtain ⟨_, _, rfl⟩ := hS.eq h; rfl
  views h := by obtain ⟨_, _, rfl⟩ := hS.eq h; rfl
  setCatalog h _ := by obtain ⟨_, _, rfl⟩ := hS.eq h; exact hS.set h _ _ _

variable {inner : QueryEngine → String → Option UInt64 → Reply} {H : Host} {F : Frontend}
  {sql : String} {e e' : QueryEngine} (h : S e e')

include h

theorem executeInnerStep_rel {i j : Option UInt64}
    (hkind : ∀ asOf kind, innerRoute H F sql = .statement asOf kind →
      ReplyRel S (executeKind H F exec inner e sql i kind)
        (executeKind H F exec inner e' sql j kind)) :
    ReplyRel S (executeInnerStep H F exec inner e sql i)
      (executeInnerStep H F exec inner e' sql j) := by
  obtain ⟨tm, wal, rfl⟩ := hS.eq h
  unfold executeInnerStep
  split
  · exact .reply (hS.set h _ _ _)
  · unfold executeRollbackTo savepointPos
    simp only
    split
    · exact .fail h
    · split
      · exact .none
      · exact .reply (hS.set h _ _ _)
  · unfold executeReleaseSavepoint savepointPos
    simp only
    split
    · exact .fail h
    · exact .reply (hS.set h _ _ _)
  · next asOf kind hroute =>
    have hrows : asOfRows { e with txnManager := tm, wal := wal } asOf = e.asOfRows asOf := rfl
    rw [hrows]
    split
    · exact .reply h
    · exact hkind asOf kind hroute
  · exact .none

theorem executeStep_rel (hinner : InnerRel S P inner none none)
    (hrouted : P sql → ReplyRel S (executeRouted inner e sql) (executeRouted inner e' sql))
    (hsql : OuterQuiet H P sql) :
    ReplyRel S (executeStep H F inner e sql) (executeStep H F inner e' sql) := by
  unfold OuterQuiet at hsql
  unfold executeStep
  split <;> rename_i hroute <;> simp only [hroute] at hsql
  · rw [executeExplain, executeExplain, hS.readRel.catalog h]
    split
    · exact .reply h
    · exact .fail h
  · refine (hinner h _ hsql).andThen fun {u u'} qr hu => ?_
    obtain ⟨tm, wal, rfl⟩ := hS.eq hu
    exact .reply hu
  · exact hS.vacuum h
  · obtain ⟨tm, wal, rfl⟩ := hS.eq h
    unfold executeCopy
    simp only
    split
    · exact .fail h
    · split
      · exact .fail h
      · split
        · exact .reply (hS.set h _ _ _)
        · exact .fail (hS.set h _ _ _)
    · next table path hplan =>
      split
      · exact .fail (hS.set h _ _ _)
      · next content hcontent =>
        split
        · exact .fail (hS.set h _ _ _)
        · exact copyRows_rel hinner (hsql table path _ content hplan hcontent) 0 (hS.set h _ _ _)
  · exact .reply h
  · exact hS.beginTxn h
  · exact hS.commit h
  · exact hS.rollback h
  · exact hrouted hsql
  · exact .none

end Control

end QueryEngine

end TensorVault
