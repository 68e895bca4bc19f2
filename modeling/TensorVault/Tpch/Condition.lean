import TensorVault.Tpch.Interpreter

/-!
# Comparisons of integers

A `Comparison` is what a conjunct between integer columns and literals says: a relation between two
operands, where a column is whatever the query's names stand for. `Comparison.holds` is its meaning
over the integers; `Comparison.holdsAsDoubles` is what the interpreter finds when it evaluates the
conjunct in a row, where both integers are rounded to doubles first.

`IntTable` is a table of integer columns.
-/

namespace TensorVault.Tpch

open Text ExecTable List

/-! ## Relations -/

inductive Relation where
  | eq
  | ne
  | lt
  | gt
  | le
  | ge
  deriving DecidableEq, Repr

def BinOp2.relation? : BinOp2 → Option Relation
  | .eq => some .eq
  | .ne => some .ne
  | .lt => some .lt
  | .gt => some .gt
  | .le => some .le
  | .ge => some .ge
  | _ => none

namespace Relation

variable {α : Type}

/-- A relation from the tests of equality and of order. -/
def test (eqTest ltTest : α → α → Bool) : Relation → α → α → Bool
  | eq, a, b => eqTest a b
  | ne, a, b => !eqTest a b
  | lt, a, b => ltTest a b
  | gt, a, b => ltTest b a
  | le, a, b => ltTest a b || eqTest a b
  | ge, a, b => ltTest b a || eqTest b a

/-- A relation between integers. -/
def holds : Relation → Int → Int → Bool :=
  test (fun a b => decide (a = b)) fun a b => decide (a < b)

/-- A relation between the doubles nearest to two integers. -/
def holdsAsDoubles : Relation → Int → Int → Bool :=
  test (fun a b => Binary64.eq (Binary64.ofInt a) (Binary64.ofInt b))
    fun a b => Binary64.lt (Binary64.ofInt a) (Binary64.ofInt b)

theorem binop_int {M : Machine} {op : BinOp2} {R : Relation}
    (h : op.relation? = some R) {a b : Int} :
    Value2.binop M op (.int a) (.int b) = Value2.ofBool (R.holdsAsDoubles a b) := by
  cases op <;> simp only [BinOp2.relation?, reduceCtorEq, Option.some.injEq] at h <;>
    subst h <;> rfl

end Relation

@[simp] theorem Value2.truthy_ofBool {b : Bool} : (Value2.ofBool b).truthy = b := by
  cases b <;> rfl

/-! ## Comparisons -/

/-- An operand, over the columns `κ`. -/
inductive Operand (κ : Type) where
  | column (c : κ)
  | literal (n : Int)
  deriving DecidableEq, Repr

structure Comparison (κ : Type) where
  relation : Relation
  lhs : Operand κ
  rhs : Operand κ
  deriving DecidableEq, Repr

variable {κ : Type}

namespace Operand

def value (env : κ → Int) : Operand κ → Int
  | column c => env c
  | literal n => n

/-- The literals of the source are `i64`. -/
def Fits : Operand κ → Prop
  | column _ => True
  | literal n => -(2 ^ 63) ≤ n ∧ n < 2 ^ 63

instance : DecidablePred (@Fits κ)
  | column _ => inferInstanceAs (Decidable True)
  | literal _ => inferInstanceAs (Decidable (_ ∧ _))

end Operand

namespace Comparison

def holds (env : κ → Int) (c : Comparison κ) : Bool :=
  c.relation.holds (c.lhs.value env) (c.rhs.value env)

def holdsAsDoubles (env : κ → Int) (c : Comparison κ) : Bool :=
  c.relation.holdsAsDoubles (c.lhs.value env) (c.rhs.value env)

def Fits (c : Comparison κ) : Prop := c.lhs.Fits ∧ c.rhs.Fits

instance : DecidablePred (@Fits κ) := fun _ => inferInstanceAs (Decidable (_ ∧ _))

end Comparison

/-! ## Reading conjuncts -/

/-- The operand an expression stands for. -/
def operand? (resolve : String → Option κ) : Expr2 → Option (Operand κ)
  | .col name => (resolve name).map .column
  | .int n => some (.literal n)
  | .neg (.int n) => some (.literal (-n))
  | _ => none

/-- The comparison a conjunct stands for. -/
def comparison? (resolve : String → Option κ) : Expr2 → Option (Comparison κ)
  | .binOp op l r => do
    let relation ← op.relation?
    let lhs ← operand? resolve l
    let rhs ← operand? resolve r
    pure ⟨relation, lhs, rhs⟩
  | _ => none

variable {e : Expr2} {c : Comparison κ}

theorem comparison?_eq_some {resolve : String → Option κ} :
    comparison? resolve e = some c ↔ ∃ op l r, e = .binOp op l r ∧ op.relation? = some c.relation ∧
      operand? resolve l = some c.lhs ∧ operand? resolve r = some c.rhs := by
  constructor
  · intro h
    cases e with
    | binOp op l r =>
      simp only [comparison?, Option.bind_eq_bind, Option.pure_def, Option.bind_eq_some_iff,
        Option.some.injEq] at h
      obtain ⟨_, hop, _, hl, _, hr, rfl⟩ := h
      exact ⟨op, l, r, rfl, hop, hl, hr⟩
    | _ => exact nomatch h
  · rintro ⟨op, l, r, rfl, hop, hl, hr⟩
    simp [comparison?, hop, hl, hr]

/-! ## Evaluation -/

theorem signedOf_cellOfInt {n : Int} (h : -(2 ^ 63) ≤ n ∧ n < 2 ^ 63) :
    signedOf (cellOfInt n) = n := by
  have htoNat : (cellOfInt n).toNat = (n % 2 ^ 64).toNat := by
    rw [cellOfInt, UInt64.toNat_ofNat']
    omega
  rw [signedOf, htoNat]
  split <;> omega

/-- The columns an operand can name are read as the environment says. -/
def Reads (read : String → Exec Value2) (resolve : String → Option κ) (env : κ → Int) (e : Expr2) :
    Prop :=
  ∀ name ∈ e.columns, ∀ k, resolve name = some k → read name = pure (.int (env k))

section

variable {M : Machine} {cat : Catalog} {L : Level} {outer : Outer} {t : ExecTable} {row : Nat}
  {resolve : String → Option κ} {env : κ → Int} {op : BinOp2} {read : String → Exec Value2}
  {l r : Expr2}

theorem Reads.left (h : Reads read resolve env (.binOp op l r)) : Reads read resolve env l := by
  intro name hname
  exact h name (by
    simp only [Expr2.columns, Expr2.leaves, filterMap_append, mem_append]
    exact Or.inl hname)

theorem Reads.right (h : Reads read resolve env (.binOp op l r)) : Reads read resolve env r := by
  intro name hname
  exact h name (by
    simp only [Expr2.columns, Expr2.leaves, filterMap_append, mem_append]
    exact Or.inr hname)

theorem eval_operand {o : Operand κ} (ho : operand? resolve e = some o) (hfits : o.Fits)
    (hreads : Reads (evalColumn M outer · t row) resolve env e) :
    eval M cat L outer t row e = pure (.int (o.value env)) := by
  cases e with
  | col name =>
    obtain ⟨k, hk, rfl⟩ := Option.map_eq_some_iff.mp ho
    rw [eval]
    exact hreads name (by simp [Expr2.columns, Expr2.leaves]) k hk
  | int n =>
    cases ho
    rw [eval]
    rfl
  | neg e =>
    cases e with
    | int n =>
      cases ho
      rw [eval, eval, pure_bind, Value2.negate, wrap64, signedOf_cellOfInt hfits]
      rfl
    | _ => exact nomatch ho
  | _ => exact nomatch ho

theorem eval_comparison (hc : comparison? resolve e = some c)
    (hfits : c.Fits) (hreads : Reads (evalColumn M outer · t row) resolve env e) :
    eval M cat L outer t row e = pure (.ofBool (c.holdsAsDoubles env)) := by
  obtain ⟨op, l, r, rfl, hop, hl, hr⟩ := comparison?_eq_some.mp hc
  rw [eval, eval_operand hl hfits.1 hreads.left, pure_bind,
    eval_operand hr hfits.2 hreads.right, pure_bind, Relation.binop_int hop]
  rfl

end

/-! ## Tables of integers -/

variable {name : String} {M : Machine} {outer : Outer} {row : Nat}

theorem evalColumn_int {t : ExecTable} {c : Nat} (hname : t.lookupCol M.host name = some c)
    (htype : t.colTypes[c]? = some .int) (hlt : c < t.columns.length) :
    evalColumn M outer name t row = pure (.int (signedOf (t.cell c row))) := by
  simp only [evalColumn, lookupShort, hname, readColumn, typedColumn, htype, if_pos hlt, pure_bind,
    value]

/-- A table of integer columns that have all their cells, whose names lead to columns. -/
structure IntTable (H : Host) where
  table : ExecTable
  /-- The joins and the grouping index every column by the row, and panic if it is shorter. -/
  full : ∀ col ∈ table.columns, col.length = table.rowCount
  types : table.colTypes = List.replicate table.columns.length .int
  colMap_lt : ∀ p ∈ table.colMap, p.2 < table.columns.length
  named : ∀ name ∈ table.columnNames, (table.colMap.lookup (H.toLowercase name)).isSome

theorem mem_of_lookup {α β : Type} [BEq α] [LawfulBEq α] {l : List (α × β)} {k : α} {v : β}
    (h : l.lookup k = some v) : (k, v) ∈ l := by
  obtain ⟨l₁, l₂, rfl, _⟩ := lookup_eq_some_iff.mp h
  simp

namespace IntTable

variable {H : Host} (t : IntTable H)

variable {c : Nat}

theorem lookup_lt (h : t.table.lookupCol H name = some c) : c < t.table.columns.length := by
  rw [lookupCol] at h
  cases hname : t.table.colMap.lookup name with
  | some c' =>
    rw [hname] at h
    cases h
    exact t.colMap_lt _ (mem_of_lookup hname)
  | none =>
    rw [hname] at h
    exact t.colMap_lt _ (mem_of_lookup h)

theorem type_of_lt (h : c < t.table.columns.length) : t.table.colTypes[c]? = some .int := by
  rw [t.types, getElem?_replicate, if_pos h]

end IntTable

theorem IntTable.evalColumn (t : IntTable M.host)
    {c : Nat} (h : t.table.lookupCol M.host name = some c) :
    Tpch.evalColumn M outer name t.table row = pure (.int (signedOf (t.table.cell c row))) :=
  evalColumn_int h (t.type_of_lt (t.lookup_lt h)) (t.lookup_lt h)

end TensorVault.Tpch
