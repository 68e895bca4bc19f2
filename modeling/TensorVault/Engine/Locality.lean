import TensorVault.Engine.Effect
import TensorVault.Lib.Commute

/-!
# Statements on different tables

A table statement reads and writes one entry of the catalog. What it does to the catalog is an
`Edit` of this entry that only depends on the entry, so statements on different tables commute
(`TableStatement.run_interleaved`).
-/

namespace TensorVault

open Sql Run Option

/-- A change to at most one entry of a catalog. -/
inductive Edit where
  | keep
  | put (t : Table)
  | remove (name : String)

namespace Edit

def apply (cat : Catalog) : Edit → Catalog
  | keep => cat
  | put t => cat.register t
  | remove name => cat.drop name

/-- The change is to the entry of the given name, if it is one. -/
def On (name : String) : Edit → Prop
  | keep => True
  | put t => t.name = name
  | remove key => key = name

variable {E : Edit} {cat : Catalog} {name : String}

theorem get_apply_of_ne {key : String} (h : E.On name) (hne : key ≠ name) :
    (E.apply cat).get key = cat.get key := by
  cases E with
  | keep => rfl
  | put t =>
    have ht : t.name = name := h
    exact Catalog.get_register_of_ne (by rw [ht]; exact hne)
  | remove other =>
    have ho : other = name := h
    rw [apply, Catalog.get_drop, if_neg (by rw [ho]; exact hne)]

theorem get_apply_self (h : E.On name) {c d : Catalog}
    (hsame : c.get name = d.get name) : (E.apply c).get name = (E.apply d).get name := by
  cases E with
  | keep => exact hsame
  | put t =>
    have ht : t.name = name := h
    simp only [apply, Catalog.get_register, ht, if_true]
  | remove other =>
    have ho : other = name := h
    simp only [apply, Catalog.get_drop, ho, if_true]

/-- Changes to different entries commute. -/
theorem apply_comm {a b : String} (hne : a ≠ b) {E' : Edit} (h : E.On a) (h' : E'.On b) :
    E.apply (E'.apply cat) = E'.apply (E.apply cat) := by
  ext1 key
  show (E.apply (E'.apply cat)).get key = (E'.apply (E.apply cat)).get key
  by_cases ha : key = a
  · subst ha
    rw [get_apply_of_ne h' hne]
    exact get_apply_self h (get_apply_of_ne h' hne)
  · rw [get_apply_of_ne h ha]
    by_cases hb : key = b
    · subst hb
      exact get_apply_self h' (get_apply_of_ne h ha).symm
    · rw [get_apply_of_ne h' hb, get_apply_of_ne h' hb, get_apply_of_ne h ha]

end Edit

/-- The outcomes of one statement on two catalogs that agree on the entry `name`. -/
def SameEdit (name : String) (c d : Catalog) (x y : Option Catalog) : Prop :=
  (x = none ∧ y = none) ∨
    ∃ E : Edit, E.On name ∧ x = some (E.apply c) ∧ y = some (E.apply d)

/-- What `effect` does only concerns the entry `name`. -/
def ActsOn (name : String) (effect : Catalog → Option Catalog) : Prop :=
  ∀ c d, c.get name = d.get name → SameEdit name c d (effect c) (effect d)

variable {name : String} {c d : Catalog} {H : Host} {im : IndexManager}

theorem SameEdit.keep : SameEdit name c d (some c) (some d) :=
  .inr ⟨.keep, trivial, rfl, rfl⟩

theorem SameEdit.none : SameEdit name c d none none :=
  .inl ⟨rfl, rfl⟩

theorem SameEdit.put {t : Table} (h : t.name = name) (c d : Catalog) :
    SameEdit name c d (some (c.register t)) (some (d.register t)) :=
  .inr ⟨.put t, h, rfl, rfl⟩

/-- **Locality.** Effects on different entries commute. -/
theorem ActsOn.commute {a b : String} (hne : a ≠ b) {f g : Catalog → Option Catalog}
    (hf : ActsOn a f) (hg : ActsOn b g) : (f c).bind g = (g c).bind f := by
  have hmoved : ∀ {name : String} {E : Edit}, E.On name → ∀ {key : String}, key ≠ name →
      c.get key = (E.apply c).get key := fun h _ hkey => (Edit.get_apply_of_ne h hkey).symm
  rcases hg c c rfl with ⟨hgc, -⟩ | ⟨E', hE', hgc, -⟩
  · -- `g` ends the process, before or after `f`.
    rw [hgc]
    rcases hf c c rfl with ⟨hfc, -⟩ | ⟨E, hE, hfc, -⟩
    · rw [hfc]
      rfl
    · rw [hfc]
      rcases hg c (E.apply c) (hmoved hE hne.symm) with ⟨-, h⟩ | ⟨_, -, h, -⟩
      · exact h
      · rw [hgc] at h; cases h
  · rw [hgc, bind_some]
    rcases hf c (E'.apply c) (hmoved hE' hne) with ⟨hfc, hfE⟩ | ⟨E, hE, hfc, hfE⟩
    · rw [hfc, hfE]
      rfl
    · rw [hfc, hfE, bind_some]
      rcases hg c (E.apply c) (hmoved hE hne.symm) with ⟨h, -⟩ | ⟨E'', hE'', hgc', hgE⟩
      · rw [hgc] at h; cases h
      · have hsame : E'.apply c = E''.apply c := Option.some.inj (hgc.symm.trans hgc')
        rw [hgE, Edit.apply_comm hne.symm hE'' hE, hsame]

/-! ## The statements -/

/-- The entries of the catalog a statement may touch. Indexes are not in the catalog. -/
def TableStatement.tables : TableStatement → List String
  | .ddl (.create ct) => [fullName ct.schema ct.name]
  | .ddl (.drop dt) => [fullName dt.schema dt.name]
  | .ddl (.createSchema _) => []
  | .ddl (.alterTable at_) => [fullName at_.schema at_.name]
  | .ddl (.createIndex _) => []
  | .ddl (.dropIndex _) => []
  | .dml d => [d.table]

theorem actsOn_insert {ins : Insert} :
    ActsOn ins.table fun cat => catalogAfter cat (executeInsert H cat ins) := by
  intro c d hsame
  simp only [executeInsert]
  rw [← hsame]
  cases ht : c.get ins.table with
  | none => exact .keep
  | some t =>
    simp only
    split
    · exact .keep
    · split
      · exact .keep
      · split
        · next t' hrows =>
          have hname : t'.name = t.name := by rw [(insertRows_eq_ok hrows).2.2.2]; rfl
          exact .put (hname.trans (Catalog.name_of_get ht)) c d
        · exact .keep
        · exact .none

theorem actsOn_update {upd : Update} :
    ActsOn upd.table fun cat => catalogAfter cat (executeUpdate H cat upd) := by
  intro c d hsame
  simp only [executeUpdate]
  rw [← hsame]
  cases ht : c.get upd.table with
  | none => exact .keep
  | some t =>
    simp only
    split
    · exact .keep
    · exact .none
    · split
      · exact .keep
      · exact .none
      · split
        · have hname := Catalog.name_of_get ht
          refine .put ?_ c d
          exact hname
        · exact .none

theorem actsOn_delete {del : Delete} :
    ActsOn del.table fun cat => catalogAfter cat (executeDelete H cat del) := by
  intro c d hsame
  simp only [executeDelete]
  rw [← hsame]
  cases ht : c.get del.table with
  | none => exact .keep
  | some t =>
    simp only
    split
    · exact .keep
    · exact .none
    · split
      · next t' hrows =>
        have hname : t'.name = t.name := by
          unfold deleteRows at hrows
          split at hrows
          · cases hrows; rfl
          · split at hrows
            · cases hrows
            · split at hrows
              · cases hrows; rfl
              · cases hrows
        exact .put (hname.trans (Catalog.name_of_get ht)) c d
      · exact .keep
      · exact .none

theorem actsOn_create {ct : CreateTable} :
    ActsOn (fullName ct.schema ct.name) fun cat =>
      catalogAfter cat (executeDdl H cat im (.create ct)) := by
  intro c d hsame
  simp only [executeDdl, executeCreateTable]
  rw [← hsame]
  split
  · split
    · exact .keep
    · exact .keep
  · exact .put rfl c d

theorem actsOn_drop {dt : DropTable} :
    ActsOn (fullName dt.schema dt.name) fun cat =>
      catalogAfter cat (executeDdl H cat im (.drop dt)) := by
  intro c d hsame
  simp only [executeDdl, executeDropTable]
  rw [← hsame]
  split
  · split
    · exact .keep
    · exact .keep
  · exact .inr ⟨.remove _, rfl, rfl, rfl⟩

theorem actsOn_alterTable {at_ : AlterTable} :
    ActsOn (fullName at_.schema at_.name) fun cat =>
      catalogAfter cat (executeDdl H cat im (.alterTable at_)) := by
  intro c d hsame
  simp only [executeDdl, executeAlterTable]
  rw [← hsame]
  cases ht : c.get (fullName at_.schema at_.name) with
  | none => exact .keep
  | some t =>
    have hname := Catalog.name_of_get ht
    simp only
    split
    · refine .put ?_ c d
      exact hname
    · split
      · exact .keep
      · split
        · refine .put ?_ c d
          exact hname
        · exact .none
    · split
      · exact .keep
      · refine .put ?_ c d
        exact hname

/-- The effect of a statement concerns its own entry, or nothing. -/
theorem TableStatement.actsOn (s : TableStatement) :
    (∃ name, s.tables = [name] ∧ ActsOn name fun cat => s.effect H cat) ∨
      ∀ cat, s.effect H cat = some cat := by
  cases s with
  | ddl d =>
    cases d with
    | create ct => exact .inl ⟨_, rfl, actsOn_create⟩
    | drop dt => exact .inl ⟨_, rfl, actsOn_drop⟩
    | createSchema name => exact .inr fun _ => rfl
    | alterTable at_ => exact .inl ⟨_, rfl, actsOn_alterTable⟩
    | createIndex ci =>
      exact .inr fun cat => catalogAfter_index executeCreateIndex_ne_panic
    | dropIndex di =>
      exact .inr fun cat => catalogAfter_index executeDropIndex_ne_panic
  | dml d =>
    cases d with
    | insert ins => exact .inl ⟨_, rfl, actsOn_insert⟩
    | update upd => exact .inl ⟨_, rfl, actsOn_update⟩
    | delete del => exact .inl ⟨_, rfl, actsOn_delete⟩

/-- **Different tables.** -/
theorem TableStatement.commute_of_disjoint {s t : TableStatement}
    (h : ∀ name ∈ s.tables, name ∉ t.tables) : Commute (TableStatement.effect H) s t := by
  intro cat
  rcases s.actsOn with ⟨a, ha, hs⟩ | hs
  · rcases t.actsOn with ⟨b, hb, ht⟩ | ht
    · have hne : a ≠ b := by
        rw [ha, hb] at h
        simpa using h
      exact hs.commute hne ht
    · simp only [ht, bind_some, bind_fun_some]
  · simp only [hs, bind_some, bind_fun_some]

/-- Clients that keep to tables of their own: however their statements are interleaved, the tables
end up as if the clients had come one after the other, in any order. -/
theorem TableStatement.run_interleaved {keys : List Nat} {entries : List (Nat × TableStatement)}
    (hnodup : keys.Nodup) (hcover : ∀ p ∈ entries, p.1 ∈ keys)
    (h : ∀ p ∈ entries, ∀ q ∈ entries, p.1 ≠ q.1 → ∀ name ∈ p.2.tables, name ∉ q.2.tables)
    (cat : Catalog) :
    run (TableStatement.effect H) cat (entries.map Prod.snd) =
      run (TableStatement.effect H) cat (keys.flatMap fun k => bucket k entries) := by
  refine run_regroup hnodup hcover (List.pairwise_of_forall_mem_list ?_) cat
  intro p hp q hq hne
  exact commute_of_disjoint (h p hp q hq hne)

theorem TableStatement.run_interleaved_created :
    let create name := TableStatement.ddl (.create ⟨"s", name, [], false⟩)
    let drop name := TableStatement.ddl (.drop ⟨"s", name, false⟩)
    run (effect Host.ascii) .empty [create "a", create "b", drop "a"] =
      run (effect Host.ascii) .empty [create "b", create "a", drop "a"] :=
  @run_interleaved _ [1, 0] [(0, _), (1, _), (0, _)] (by decide) (by decide) (by decide) _

end TensorVault
