import TensorVault.Engine.Readonly
import TensorVault.Engine.Scanners
import TensorVault.Engine.Select

/-!
# What a query leaves in the catalog

Common table expressions and views are executed by registering their rows as tables of the catalog.
Those of the former are dropped at the end, whatever stood there before (`executeInner_drops`); the
tables of views stay (`materializeViews_plain`). `query_keeps_tables_iff` says when nothing is left
to be seen of either.
-/

namespace TensorVault

open Text Sql List

/-! ## Dropping tables -/

namespace Catalog

/-- The catalog without the tables of these names. -/
def without (c : Catalog) (names : List String) : Catalog := names.foldl drop c

variable {c : Catalog} {names : List String}

theorem get_without {key : String} :
    (c.without names).get key = if key ∈ names then none else c.get key := by
  induction names generalizing c with
  | nil => simp [without]
  | cons name names ih =>
    have hstep : c.without (name :: names) = (c.drop name).without names := rfl
    rw [hstep, ih, get_drop]
    by_cases hname : key = name
    · simp [hname]
    · simp [hname]

theorem without_append {a b : List String} :
    c.without (a ++ b) = (c.without a).without b := foldl_append

theorem without_without : (c.without names).without names = c.without names := by
  ext1 key
  show ((c.without names).without names).get key = (c.without names).get key
  rw [get_without, get_without]
  split <;> rfl

theorem without_eq_self_iff : c.without names = c ↔ ∀ name ∈ names, c.get name = none := by
  constructor
  · intro h name hname
    rw [← h, get_without, if_pos hname]
  · intro h
    ext1 key
    show (c.without names).get key = c.get key
    rw [get_without]
    split
    · next hkey => exact (h key hkey).symm
    · rfl

/-- The catalogs have the same tables but for those of these names. -/
def SameOff (names : List String) (c d : Catalog) : Prop := ∀ key ∉ names, c.get key = d.get key

variable {names : List String} {c d : Catalog}

theorem SameOff.without (h : SameOff names c d) (dropped : List String) :
    SameOff names (c.without dropped) (d.without dropped) := by
  intro key hkey
  rw [get_without, get_without, h key hkey]

theorem SameOff.register (h : SameOff names c d) {t : Table} (ht : t.name ∈ names) :
    SameOff names (c.register t) d := by
  intro key hkey
  have hne : key ≠ t.name := fun heq => hkey (heq ▸ ht)
  rw [get_register_of_ne hne, h key hkey]

theorem SameOff.without_eq (h : SameOff names c d) : c.without names = d.without names := by
  ext1 key
  show (c.without names).get key = (d.without names).get key
  rw [get_without, get_without]
  split
  · rfl
  · next hkey => exact h key hkey

end Catalog

namespace QueryEngine

/-! ## Queries that read no views -/

section

variable (H : Host) (F : Frontend) (e : QueryEngine)

/-- A query that mentions no view, if its parts do not. -/
def ViewlessKind (part : String → Prop) (sql : String) : Kind → Prop
  | .withClause w => (∀ cte ∈ w.ctes, CteTexts part cte) ∧ part w.outerQuery
  | .unionAll left right => part left ∧ part right
  | .pivot stripped _ => part stripped
  | .jsonValue rewritten _ => part rewritten
  | .select => e.mentionedViews H sql = []
  | .fail _ => True
  | .abort => True
  | _ => False

def ViewlessText (part : String → Prop) (sql : String) : Prop :=
  match innerRoute H F sql with
  | .statement _ kind => ViewlessKind H e part sql kind
  | _ => False

/-- No text that `executeInner n` comes to mentions a view. -/
def Viewless : Nat → String → Prop
  | 0 => ViewlessText H F e fun _ => True
  | n + 1 => ViewlessText H F e (Viewless n)

instance (part : String → Prop) [DecidablePred part] : DecidablePred (CteTexts part) := fun cte =>
  match h : cte.recursive with
  | none => decidable_of_iff (part cte.anchor) (by simp [CteTexts, h])
  | some sql => decidable_of_iff (part cte.anchor ∧ part sql) (by simp [CteTexts, h])

instance (part : String → Prop) [DecidablePred part] (sql : String) :
    DecidablePred (ViewlessKind H e part sql)
  | .withClause w =>
    inferInstanceAs (Decidable ((∀ cte ∈ w.ctes, CteTexts part cte) ∧ part w.outerQuery))
  | .unionAll left right => inferInstanceAs (Decidable (part left ∧ part right))
  | .pivot stripped _ => inferInstanceAs (Decidable (part stripped))
  | .jsonValue rewritten _ => inferInstanceAs (Decidable (part rewritten))
  | .select => inferInstanceAs (Decidable (e.mentionedViews H sql = []))
  | .fail _ => .isTrue trivial
  | .abort => .isTrue trivial
  | .createView _ | .dropView _ | .createProcedure _ | .exec _ _ | .merge _ | .ddl _ _ | .dml _ =>
    .isFalse id

instance (part : String → Prop) [DecidablePred part] : DecidablePred (ViewlessText H F e part) :=
  fun sql => by
    unfold ViewlessText
    split <;> infer_instance

instance decidableViewless : ∀ n, DecidablePred (Viewless H F e n)
  | 0 => inferInstanceAs (DecidablePred (ViewlessText H F e fun _ => True))
  | n + 1 =>
    have := decidableViewless n
    inferInstanceAs (DecidablePred (ViewlessText H F e (Viewless H F e n)))

/-- The names of common table expressions inside a common table expression. -/
def cteParts (part : String → List String) (cte : CteDef) : List String :=
  part cte.anchor ++ (cte.recursive.map part).getD []

def kindNames (part : String → List String) : Kind → List String
  | .withClause w =>
    w.ctes.flatMap (cteParts part) ++ part w.outerQuery ++ w.ctes.map CteDef.name
  | .unionAll left right => part left ++ part right
  | .pivot stripped _ => part stripped
  | .jsonValue rewritten _ => part rewritten
  | _ => []

def textNames (part : String → List String) (sql : String) : List String :=
  match innerRoute H F sql with
  | .statement asOf kind => if (e.asOfRows asOf).isSome then [] else kindNames part kind
  | _ => []

/-- The names of the common table expressions in a query, at every depth. -/
def cteNames : Nat → String → List String
  | 0 => textNames H F e fun _ => []
  | n + 1 => textNames H F e (cteNames n)

end

/-- A call that ran on `e` with this catalog, and returned a result, dropped the tables of these
names and did nothing else. -/
def Drops (e : QueryEngine) (cat : Catalog) (names : List String) (x : Reply) : Prop :=
  ∀ e' qr, x = some (e', .ok qr) → e' = { e with catalog := cat.without names }

/-- In the middle of a WITH: a call went on from `e`, and the catalog is `cat` but for the tables of
these names. -/
def Amid (e : QueryEngine) (names : List String) (cat : Catalog) (x : Reply) : Prop :=
  ∀ e' qr, x = some (e', .ok qr) →
    ∃ c, e' = { e with catalog := c } ∧ Catalog.SameOff names c cat

variable {e' : QueryEngine} {qr : QueryResult} {H : Host} {F : Frontend} {e : QueryEngine}
  {sql : String}

theorem andThen_ok {x : Reply} {k : QueryEngine → QueryResult → Reply}
    (h : x.andThen k = some (e', .ok qr)) :
    ∃ u ur, x = some (u, .ok ur) ∧ k u ur = some (e', .ok qr) := by
  rcases x with _ | ⟨u, ur | ur⟩
  · cases h
  · cases h
  · exact ⟨u, ur, rfl, h⟩

theorem viewlessText_iff {part : String → Prop} : ViewlessText H F e part sql ↔
      ∃ asOf kind, innerRoute H F sql = .statement asOf kind ∧ ViewlessKind H e part sql kind := by
  rw [ViewlessText]
  cases innerRoute H F sql <;> simp

section Compound

variable {inner : QueryEngine → String → Option UInt64 → Reply} {i : Option UInt64}
  {part : String → Prop} {partNames : String → List String}
  (hinner : ∀ sql, part sql → ∀ cat i,
    Drops e cat (partNames sql) (inner { e with catalog := cat } sql i))

include hinner

variable {name : String} {c d : Catalog} {names : List String} {cat : Catalog}
  {exec : QueryEngine → String → Reply}

/-- One round: it is the last one, or there are further rounds on a catalog that is the same as
before off these names, but for the names inside. -/
theorem runRecursive_round (hsql : part sql) (hname : name ∈ names) {n : Nat}
    (h : Catalog.SameOff names c d)
    (hrun : runRecursive inner i name sql (n + 1) { e with catalog := c } = some (e', .ok qr)) :
    ∃ c', Catalog.SameOff names c' (d.without (partNames sql)) ∧
      (e' = { e with catalog := c' } ∨
        runRecursive inner i name sql n { e with catalog := c' } = some (e', .ok qr)) := by
  obtain ⟨u, ur, hu, hrest⟩ := andThen_ok hrun
  obtain rfl := hinner sql hsql c i u ur hu
  have hoff := h.without (partNames sql)
  simp only at hrest
  split at hrest
  · split at hrest
    · cases hrest
      exact ⟨_, hoff, .inl rfl⟩
    · cases hrest
  · next t ht =>
    split at hrest
    · cases hrest
      exact ⟨_, hoff, .inl rfl⟩
    · have hmem : (appendResultRows t ur).name ∈ names := by
        rw [appendResultRows, Catalog.name_of_get ht]
        exact hname
      exact ⟨_, hoff.register hmem, .inr hrest⟩

/-- The first round removes the names inside, and the later ones find them gone. -/
theorem runRecursive_amid (hsql : part sql)
    (hname : name ∈ names) {n : Nat} (h : Catalog.SameOff names c d) :
    Amid e names (d.without (partNames sql))
      (runRecursive inner i name sql (n + 1) { e with catalog := c }) := by
  induction n generalizing c d with
  | zero =>
    intro e' qr hrun
    obtain ⟨c', hoff, hlast | hmore⟩ := runRecursive_round hinner hsql hname h hrun
    · exact ⟨c', hlast, hoff⟩
    · cases hmore
      exact ⟨c', rfl, hoff⟩
  | succ n ih =>
    intro e' qr hrun
    obtain ⟨c', hoff, hlast | hmore⟩ := runRecursive_round hinner hsql hname h hrun
    · exact ⟨c', hlast, hoff⟩
    · have hmore := ih hoff e' qr hmore
      rwa [Catalog.without_without] at hmore

theorem runCtes_amid (names : List String) (maxIter : Nat) {ctes : List CteDef}
    (hparts : ∀ cte ∈ ctes, CteTexts part cte) (hnames : ∀ cte ∈ ctes, cte.name ∈ names)
    (h : Catalog.SameOff names c d) :
    Amid e names (d.without (ctes.flatMap (cteParts partNames)))
      (runCtes inner i (maxIter + 1) ctes { e with catalog := c }) := by
  induction ctes generalizing c d with
  | nil =>
    intro e' qr hreply
    cases hreply
    exact ⟨c, rfl, h⟩
  | cons cte ctes ih =>
    intro e' qr hreply
    obtain ⟨hanchor, hrec⟩ := hparts cte mem_cons_self
    have hname := hnames cte mem_cons_self
    have hrest : ∀ u, Catalog.SameOff names u (d.without (cteParts partNames cte)) →
        runCtes inner i (maxIter + 1) ctes { e with catalog := u } = some (e', .ok qr) →
        ∃ c, e' = { e with catalog := c } ∧
          Catalog.SameOff names c (d.without ((cte :: ctes).flatMap (cteParts partNames))) := by
      intro u hu hrun
      rw [flatMap_cons, Catalog.without_append]
      exact ih (forall_mem_cons.mp hparts).2 (forall_mem_cons.mp hnames).2 hu e' qr hrun
    obtain ⟨u, ur, hu, hreply⟩ := andThen_ok hreply
    obtain rfl := hinner _ hanchor c i u ur hu
    have hoff : Catalog.SameOff names
        ((c.without (partNames cte.anchor)).register (resultToTable cte.name ur)) _ :=
      (h.without (partNames cte.anchor)).register hname
    unfold cteParts at hrest
    simp only at hreply
    split at hreply
    · next hnone =>
      rw [hnone] at hrest
      refine hrest _ ?_ hreply
      simpa using hoff
    · next sql hsome =>
      rw [hsome, Option.map_some, Option.getD_some, Catalog.without_append] at hrest
      obtain ⟨v, vr, hv, hreply⟩ := andThen_ok hreply
      obtain ⟨c', rfl, hoff'⟩ :=
        runRecursive_amid hinner (hrec sql hsome) hname hoff v vr hv
      exact hrest c' hoff' hreply

theorem executeWith_drops {w : WithClause} (hparts : ∀ cte ∈ w.ctes, CteTexts part cte)
    (houter : part w.outerQuery) :
    Drops e cat (kindNames partNames (.withClause w))
      (executeWith inner i { e with catalog := cat } w) := by
  intro e' qr hreply
  have hiter : ∃ m, (if w.maxRecursion = 0 then 100000 else w.maxRecursion) = m + 1 :=
    Nat.exists_eq_succ_of_ne_zero (by split <;> omega)
  obtain ⟨m, hm⟩ := hiter
  simp only [executeWith, hm] at hreply
  obtain ⟨u, ur, hu, hreply⟩ := andThen_ok hreply
  obtain ⟨c, rfl, hoff⟩ := runCtes_amid hinner (w.ctes.map CteDef.name) m hparts
    (fun cte hcte => mem_map_of_mem hcte) (fun _ _ => rfl) u ur hu
  obtain ⟨v, vr, hv, hreply⟩ := andThen_ok hreply
  obtain rfl := hinner _ houter c i v vr hv
  cases hreply
  have hdropped := (hoff.without (partNames w.outerQuery)).without_eq
  rw [kindNames, Catalog.without_append, Catalog.without_append, ← hdropped]
  simp only [Catalog.without, foldl_map]

theorem executeKind_drops {kind : Kind} (hkind : ViewlessKind H e part sql kind) :
    Drops e cat (kindNames partNames kind)
      (executeKind H F exec inner { e with catalog := cat } sql i kind) := by
  intro e' qr hreply
  cases kind with
  | withClause w => exact executeWith_drops hinner hkind.1 hkind.2 e' qr hreply
  | unionAll left right =>
    obtain ⟨u, ur, hu, hreply⟩ := andThen_ok hreply
    obtain rfl := hinner _ hkind.1 cat i u ur hu
    obtain ⟨v, vr, hv, hreply⟩ := andThen_ok hreply
    obtain rfl := hinner _ hkind.2 _ i v vr hv
    cases hreply
    rw [kindNames, Catalog.without_append]
  | pivot stripped post | jsonValue stripped post =>
    obtain ⟨u, ur, hu, hreply⟩ := andThen_ok hreply
    cases hreply
    exact hinner _ hkind cat i _ ur hu
  | select =>
    have hviews : { e with catalog := cat }.mentionedViews H sql = [] := hkind
    rw [executeKind, executeSelectText_viewless hviews] at hreply
    split at hreply
    · cases hreply
      rfl
    · cases hreply
    · cases hreply
  | fail | abort => cases hreply
  | createView | dropView | createProcedure | exec | merge | ddl | dml => exact hkind.elim

theorem executeInnerStep_drops (hsql : ViewlessText H F e part sql) (cat : Catalog) :
    Drops e cat (textNames H F e partNames sql)
      (executeInnerStep H F exec inner { e with catalog := cat } sql i) := by
  intro e' qr hreply
  obtain ⟨asOf, kind, hroute, hkind⟩ := viewlessText_iff.mp hsql
  have hrows : { e with catalog := cat }.asOfRows asOf = e.asOfRows asOf := rfl
  simp only [executeInnerStep, hroute, hrows] at hreply
  simp only [textNames, hroute]
  split at hreply
  · next hsome =>
    rw [hsome]
    cases hreply
    rfl
  · next hnone =>
    rw [hnone]
    exact executeKind_drops hinner hkind e' qr hreply

end Compound

variable {n : Nat}

/-- **What a query without views removes.** -/
theorem executeInner_drops (hsql : Viewless H F e n sql) (cat : Catalog) (i : Option UInt64) :
    Drops e cat (cteNames H F e n sql) (executeInner H F n { e with catalog := cat } sql i) := by
  induction n generalizing sql cat i with
  | zero => exact executeInnerStep_drops (fun _ _ _ _ _ _ h => by cases h) hsql cat
  | succ n ih => exact executeInnerStep_drops (fun _ h cat i => ih h cat i) hsql cat

/-! ## SELECT over views -/

/-- A view that is defined by a SELECT over tables. -/
def PlainView (H : Host) (F : Frontend) (e : QueryEngine) (v : ViewDef) : Prop :=
  innerRoute H F v.selectSql = .statement none .select ∧ e.mentionedViews H v.selectSql = []

/-- The catalog after the views have been registered, each in the catalog that the ones before it
left. -/
def materialized (F : Frontend) (im : IndexManager) : Catalog → List ViewDef → Catalog
  | c, [] => c
  | c, v :: views =>
    match F.select c im v.selectSql with
    | .ok qr => materialized F im (c.register (resultToTable v.name qr)) views
    | _ => materialized F im c views

theorem materialized_sameOff (im : IndexManager) (c : Catalog) (views : List ViewDef) :
    Catalog.SameOff (views.map ViewDef.name) (materialized F im c views) c := by
  induction views generalizing c with
  | nil => exact fun _ _ => rfl
  | cons v views ih =>
    intro key hkey
    rw [map_cons, mem_cons, not_or] at hkey
    rw [materialized]
    split
    · rw [ih _ key hkey.2]
      exact Catalog.get_register_of_ne hkey.1
    · exact ih c key hkey.2

/-- The rows of each view stand in the catalog, unless its SELECT fails. -/
def Materialized (F : Frontend) (im : IndexManager) (c : Catalog) (views : List ViewDef) : Prop :=
  ∀ v ∈ views, ∀ qr, F.select c im v.selectSql = .ok qr →
    c.get v.name = some (resultToTable v.name qr)

variable {views : List ViewDef} {c cat : Catalog}
  {inner : QueryEngine → String → Option UInt64 → Reply}

theorem materialized_eq_self_iff {im : IndexManager} (hnodup : (views.map ViewDef.name).Nodup) :
    materialized F im c views = c ↔ Materialized F im c views := by
  induction views with
  | nil => exact ⟨fun _ _ hv => absurd hv not_mem_nil, fun _ => rfl⟩
  | cons v views ih =>
    rw [map_cons, nodup_cons] at hnodup
    have hcons : Materialized F im c (v :: views) ↔
        (∀ qr, F.select c im v.selectSql = .ok qr →
          c.get v.name = some (resultToTable v.name qr)) ∧ Materialized F im c views :=
      forall_mem_cons
    rw [hcons, materialized]
    split
    · next qr hqr =>
      have hget : (materialized F im (c.register (resultToTable v.name qr)) views).get v.name =
          some (resultToTable v.name qr) := by
        rw [materialized_sameOff im _ views v.name hnodup.1, Catalog.get_register]
        exact if_pos rfl
      have hself : c.get v.name = some (resultToTable v.name qr) →
          c.register (resultToTable v.name qr) = c := fun h => Catalog.register_eq_self h
      constructor
      · intro h
        have hold : c.get v.name = some (resultToTable v.name qr) := by
          rw [← hget, h]
        rw [hself hold] at h
        refine ⟨fun qr' hqr' => ?_, (ih hnodup.2).mp h⟩
        cases hqr.symm.trans hqr'
        exact hold
      · rintro ⟨hold, hrest⟩
        rw [hself (hold qr hqr)]
        exact (ih hnodup.2).mpr hrest
    · next hfail =>
      rw [ih hnodup.2]
      exact ⟨fun h => ⟨fun qr hqr => (hfail qr hqr).elim, h⟩, And.right⟩

/-- The SELECT of a plain view is executed on the catalog as it stands. -/
theorem executeInner_plainView {v : ViewDef} (hv : PlainView H F e v) :
    executeInner H F n { e with catalog := cat } v.selectSql none =
      match F.select cat e.indexManager v.selectSql with
      | .ok qr => some ({ e with catalog := cat }, .ok qr)
      | .err err => some ({ e with catalog := cat }, .error err)
      | .panic => none := by
  have hviews : { e with catalog := cat }.mentionedViews H v.selectSql = [] := hv.2
  cases n <;>
    simp only [executeInner, executeInnerStep, hv.1, asOfRows, Option.bind_none, executeKind,
      executeSelectText_viewless hviews] <;> rfl

theorem materializeViews_plain (hviews : ∀ v ∈ views, PlainView H F e v)
    (h : materializeViews (executeInner H F n) views { e with catalog := cat } = some e') :
    e' = { e with catalog := materialized F e.indexManager cat views } := by
  induction views generalizing cat with
  | nil =>
    cases h
    rfl
  | cons v views ih =>
    have hrest : ∀ w ∈ views, PlainView H F e w := (forall_mem_cons.mp hviews).2
    rw [materializeViews, executeInner_plainView (hviews v mem_cons_self)] at h
    rw [materialized]
    cases hselect : F.select cat e.indexManager v.selectSql with
    | ok | err =>
      rw [hselect] at h
      exact ih hrest h
    | panic =>
      rw [hselect] at h
      cases h

theorem executeSelectText_catalog {v : QueryEngine}
    (hviews : ∀ u, materializeViews inner (e.mentionedViews H sql) e = some u → u = v)
    (h : executeSelectText inner H F e sql = some (e', .ok qr)) : e' = v := by
  unfold executeSelectText at h
  split at h
  · cases h
  · next u hu =>
    rw [← hviews u hu]
    split at h
    · cases h
      rfl
    · cases h
    · cases h

/-! ## Queries -/

section

variable (H : Host) (F : Frontend) (e : QueryEngine) (n : Nat) (sql : String)

/-- The views a SELECT registers. -/
def viewsRead : List ViewDef :=
  match innerRoute H F sql with
  | .statement asOf .select => if (e.asOfRows asOf).isSome then [] else e.mentionedViews H sql
  | _ => []

/-- A SELECT over tables and plain views, or a query that reads no views at any depth. -/
def PlainInner : Prop :=
  Viewless H F e n sql ∨
    ∃ asOf, innerRoute H F sql = .statement asOf .select ∧
      ∀ v ∈ e.mentionedViews H sql, PlainView H F e v

/-- No common table expression has the name of a table, and the views have been registered before,
with the rows that they have now. -/
def Undisturbed : Prop :=
  (∀ name ∈ cteNames H F e n sql, e.catalog.get name = none) ∧
    Materialized F e.indexManager e.catalog (viewsRead H F e sql)

end

/-- The tables are the same, in the main catalog and in the snapshot of an open transaction. -/
def SameTables (e e' : QueryEngine) : Prop :=
  e'.catalog = e.catalog ∧ e'.working.catalog = e.working.catalog

section Frame

variable {n : Nat} {sql : String}

theorem viewsRead_of_viewless (h : Viewless H F e n sql) : viewsRead H F e sql = [] := by
  obtain ⟨asOf, kind, hroute, hkind⟩ : ∃ asOf kind, innerRoute H F sql = .statement asOf kind ∧
      (kind = .select → e.mentionedViews H sql = []) := by
    cases n with
    | zero | succ n =>
      obtain ⟨asOf, kind, hroute, hkind⟩ := viewlessText_iff.mp h
      refine ⟨asOf, kind, hroute, ?_⟩
      rintro rfl
      exact hkind
  rw [viewsRead, hroute]
  cases kind <;> simp [hkind]

theorem cteNames_select {asOf : Option (String × UInt64)}
    (h : innerRoute H F sql = .statement asOf .select) : cteNames H F e n sql = [] := by
  cases n <;> simp [cteNames, textNames, h, kindNames]

/-- The catalog after a query, and nothing else has changed. -/
theorem executeInner_plain (hsql : PlainInner H F e n sql)
    (hnodup : (e.views.map ViewDef.name).Nodup) :
    ∃ c, (∀ i e' qr, executeInner H F n e sql i = some (e', .ok qr) →
        e' = { e with catalog := c }) ∧
      (c = e.catalog ↔ Undisturbed H F e n sql) := by
  rcases hsql with hviewless | ⟨asOf, hroute, hviews⟩
  · refine ⟨e.catalog.without (cteNames H F e n sql), ?_, ?_⟩
    · exact fun i => executeInner_drops hviewless e.catalog i
    · rw [Catalog.without_eq_self_iff, Undisturbed, viewsRead_of_viewless hviewless]
      exact (and_iff_left fun _ hv => absurd hv not_mem_nil).symm
  · have hmentioned : ((e.mentionedViews H sql).map ViewDef.name).Nodup :=
      hnodup.sublist (filter_sublist.map _)
    have hfresh : Undisturbed H F e n sql ↔
        Materialized F e.indexManager e.catalog (viewsRead H F e sql) := by
      rw [Undisturbed, cteNames_select hroute]
      exact and_iff_right fun _ hname => absurd hname not_mem_nil
    rw [hfresh, viewsRead, hroute]
    simp only
    cases hrows : e.asOfRows asOf with
    | some rows =>
      refine ⟨e.catalog, fun i e' qr h => ?_, ?_⟩
      · cases n <;>
        · simp only [executeInner, executeInnerStep, hroute, hrows] at h
          cases h
          rfl
      · simp [Materialized]
    | none =>
      refine ⟨materialized F e.indexManager e.catalog (e.mentionedViews H sql),
        fun i e' qr h => ?_, ?_⟩
      · cases n with
        | zero =>
          simp only [executeInner, executeInnerStep, hroute, hrows, executeKind] at h
          refine executeSelectText_catalog (fun u hu => ?_) h
          -- without room for another call, a view to be executed ends the process
          cases hmem : e.mentionedViews H sql with
          | nil =>
            rw [hmem] at hu
            cases hu
            rfl
          | cons v views =>
            rw [hmem] at hu
            cases hu
        | succ n =>
          simp only [executeInner, executeInnerStep, hroute, hrows, executeKind] at h
          exact executeSelectText_catalog (fun u hu => materializeViews_plain hviews hu) h
      · simpa using materialized_eq_self_iff hmentioned

theorem executeRouted_sameTables (h : ∀ i e' qr, inner e.working sql i = some (e', .ok qr) →
      e' = { e.working with catalog := c })
    (hreply : executeRouted inner e sql = some (e', .ok qr)) :
    SameTables e e' ↔ c = e.working.catalog := by
  unfold executeRouted at hreply
  cases hactive : e.txnManager.active with
  | none =>
    have hworking : e.working = e := by rw [working, hactive]
    rw [hworking] at h ⊢
    rw [hactive] at hreply
    obtain rfl := h none e' qr hreply
    have hworking' : { e with catalog := c }.working = { e with catalog := c } := by
      rw [working]
      simp only [hactive]
    rw [SameTables, hworking', hworking]
    exact and_self_iff
  | some txn =>
    have hworking : e.working = e.entered txn := by rw [working, hactive]
    rw [hworking] at h ⊢
    simp only [hactive] at hreply
    split at hreply
    · cases hreply
    · next u r hinner =>
      cases hreply
      obtain rfl := h _ u qr hinner
      rw [SameTables, hworking]
      exact and_iff_right rfl

/-- A query leaves the tables as they were if and only if none of its common table expressions has
the name of a table, and the views it reads are in the catalog already, with the same rows. -/
theorem query_keeps_tables_iff {e' : QueryEngine} {qr : QueryResult}
    (hroute : outerRoute H sql = .inner) (hquery : PlainInner H F e.working n sql)
    (hnodup : (e.views.map ViewDef.name).Nodup) (h : execute H F n e sql = some (e', .ok qr)) :
    SameTables e e' ↔ Undisturbed H F e.working n sql := by
  have hviews : e.working.views = e.views := by
    unfold working
    split <;> rfl
  obtain ⟨c, hinner, hiff⟩ := executeInner_plain hquery (hviews ▸ hnodup)
  have hrouted : executeRouted (executeInner H F n) e sql = some (e', .ok qr) := by
    rw [← h, execute, executeStep, hroute]
  rw [executeRouted_sameTables hinner hrouted, hiff]

end Frame

/-! ## Two tables -/

/-- The engine with its scanners and its SELECT path, for ASCII texts. -/
def frontendOver (K : Kernels) : Frontend :=
  Scan.frontend Host.ascii { pivot := fun _ qr => qr, json := fun _ qr => qr }
    { Frontend.closed with select := selectPath Host.ascii K }

/-- A table with one column of numbers. -/
def numbers (name : String) (cells : List UInt64) : Table where
  name := name
  columns := [cells]
  columnNames := ["a"]
  rowCount := cells.length
  stringColumns := [none]
  nullBitmaps := []
  schema := none

/-- An engine with the tables `t` and `u`. -/
def numbersWith (views : List ViewDef) : QueryEngine :=
  { QueryEngine.new with
    catalog := (Catalog.empty.register (numbers "t" [1, 2])).register (numbers "u" [7])
    views := views }

/-- The table a query leaves under a name. -/
def tableAfter (e : QueryEngine) (sql name : String) : Option (Option Table) :=
  match execute Host.ascii (frontendOver .unsupported) 2 e sql with
  | some (e', .ok _) => some (e'.catalog.get name)
  | _ => none

theorem ok_of_tableAfter {name : String} {t : Option Table} (h : tableAfter e sql name = some t) :
    ∃ e' qr, execute Host.ascii (frontendOver .unsupported) 2 e sql = some (e', .ok qr) ∧
      e'.catalog.get name = t := by
  unfold tableAfter at h
  split at h
  · next e' qr hreply => exact ⟨e', qr, hreply, Option.some.inj h⟩
  · cases h

theorem freshCte_keeps_tables :
    ∃ e' qr, execute Host.ascii (frontendOver .unsupported) 2 (numbersWith [])
        "WITH x AS (SELECT a FROM t) SELECT a FROM x" = some (e', .ok qr) ∧
      SameTables (numbersWith []) e' := by
  have hafter : tableAfter (numbersWith []) "WITH x AS (SELECT a FROM t) SELECT a FROM x" "x" =
      some none := by decide +kernel
  obtain ⟨e', qr, hreply, -⟩ := ok_of_tableAfter hafter
  have hviewless : Viewless Host.ascii (frontendOver .unsupported) (numbersWith []).working 2
      "WITH x AS (SELECT a FROM t) SELECT a FROM x" := by decide +kernel
  refine ⟨e', qr, hreply, (query_keeps_tables_iff (by decide +kernel) (.inl hviewless)
    (by decide) hreply).mpr ⟨by decide +kernel, ?_⟩⟩
  rw [viewsRead_of_viewless hviewless]
  exact fun _ hv => absurd hv not_mem_nil

/-- A common table expression with the name of a table makes the table disappear, and a view with
that name replaces its rows. A view with a name of its own is left behind as a table. -/
theorem cte_and_view_change_tables :
    (∃ e' qr, execute Host.ascii (frontendOver .unsupported) 2 (numbersWith [])
        "WITH t AS (SELECT a FROM u) SELECT a FROM t" = some (e', .ok qr) ∧
      e'.catalog.get "t" = none ∧ ¬ SameTables (numbersWith []) e') ∧
    (∃ e' qr, execute Host.ascii (frontendOver .unsupported) 2
        (numbersWith [⟨"t", "SELECT a FROM u"⟩]) "SELECT a FROM t" = some (e', .ok qr) ∧
      e'.catalog.get "t" = some (numbers "t" [7]) ∧
      ¬ SameTables (numbersWith [⟨"t", "SELECT a FROM u"⟩]) e') ∧
    ∃ e' qr, execute Host.ascii (frontendOver .unsupported) 2
        (numbersWith [⟨"v", "SELECT a FROM u"⟩]) "SELECT a FROM v" = some (e', .ok qr) ∧
      e'.catalog.get "v" = some (numbers "v" [7]) ∧
      ¬ SameTables (numbersWith [⟨"v", "SELECT a FROM u"⟩]) e' := by
  have hrun : ∀ {e : QueryEngine} {sql name : String} {t : Option Table},
      tableAfter e sql name = some t → e.catalog.get name ≠ t →
      ∃ e' qr, execute Host.ascii (frontendOver .unsupported) 2 e sql = some (e', .ok qr) ∧
        e'.catalog.get name = t ∧ ¬ SameTables e e' := by
    intro e sql name t h hne
    obtain ⟨e', qr, hreply, ht⟩ := ok_of_tableAfter h
    exact ⟨e', qr, hreply, ht, fun hsame => hne (hsame.1 ▸ ht)⟩
  exact ⟨hrun (by decide +kernel) (by decide +kernel), hrun (by decide +kernel) (by decide +kernel),
    hrun (by decide +kernel) (by decide +kernel)⟩

end QueryEngine

end TensorVault
