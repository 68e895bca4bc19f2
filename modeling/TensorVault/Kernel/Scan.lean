import Mathlib.Data.List.Basic
import Mathlib.Data.UInt

/-!
# The scan kernels

Each operator has a scalar kernel and vector kernels. A vector kernel compares whole blocks of
lanes, counts the bits of the mask, and finishes with the scalar test on the cells that are left.
`kernels_agree_iff` says for which parameters they all give the same count.
-/

namespace TensorVault.Scan

open List

inductive PredicateOp
  | eq | gt | lt

structure KernelParams where
  target : UInt64
  target2 : UInt64
  target3 : UInt64
  low : UInt64
  high : UInt64
  pred1Op : PredicateOp
  pred2Op : PredicateOp
  pred3Op : PredicateOp
  predicateCount : UInt8

inductive Operator
  | scanEqU64 | scanRangeU64 | scanMultiPredicate

abbrev Kernel := KernelParams → List UInt64 → Nat

/-! ## Tests -/

def evalPredicate (cell target : UInt64) : PredicateOp → Bool
  | .eq => cell == target
  | .gt => cell > target
  | .lt => cell < target

/-- `cmp_mask` on one lane; the intrinsics compare signed numbers. -/
def cmpMask (v target : UInt64) : PredicateOp → Bool
  | .eq => v == target
  | .gt => v.toInt64 > target.toInt64
  | .lt => v.toInt64 < target.toInt64

/-- The conjunction of the first predicates; one that is not in use holds. -/
def allOf (test : UInt64 → UInt64 → PredicateOp → Bool) (p : KernelParams) (c : UInt64) : Bool :=
  let n := min p.predicateCount.toNat 3
  (if n ≥ 1 then test c p.target p.pred1Op else true) &&
    (if n ≥ 2 then test c p.target2 p.pred2Op else true) &&
    (if n ≥ 3 then test c p.target3 p.pred3Op else true)

def inRange (p : KernelParams) (c : UInt64) : Bool := c ≥ p.low && c ≤ p.high

def inRangeSigned (p : KernelParams) (v : UInt64) : Bool :=
  v.toInt64 ≥ p.low.toInt64 && v.toInt64 ≤ p.high.toInt64

/-! ## Kernels -/

def scanEqScalar : Kernel := fun p cells => cells.countP (· == p.target)

def scanRangeScalar : Kernel := fun p cells => cells.countP (inRange p)

def scanMultiPredicateScalar : Kernel := fun p cells => cells.countP (allOf evalPredicate p)

/-- Blocks of `w` lanes, each counted from its mask, and the scalar test on the rest. -/
def blocks (w : Nat) (bits : List Bool → Nat) (lane cell : UInt64 → Bool) (cells : List UInt64) :
    Nat :=
  if 0 < w ∧ w ≤ cells.length then
    bits ((cells.take w).map lane) + blocks w bits lane cell (cells.drop w)
  else cells.countP cell
termination_by cells.length
decreasing_by simp; omega

/-- The mask has eight bits for each lane. -/
def scanEqAvx2 : Kernel := fun p =>
  blocks 4 (fun mask => (mask.flatMap (List.replicate 8)).count true / 8) (· == p.target)
    (· == p.target)

def scanEqAvx512L3 : Kernel := fun p => blocks 8 (List.count true) (· == p.target) (· == p.target)

/-- The kernels for slower memory differ in what they prefetch. -/
def scanEqAvx512Ddr5 : Kernel := scanEqAvx512L3

def scanEqAvx512Cxl : Kernel := scanEqAvx512L3

def scanRangeAvx512L3 : Kernel := fun p => blocks 8 (List.count true) (inRangeSigned p) (inRange p)

def scanMultiPredicateAvx512 : Kernel := fun p =>
  blocks 8 (List.count true) (allOf cmpMask p) (allOf evalPredicate p)

def scalarKernel : Operator → Kernel
  | .scanEqU64 => scanEqScalar
  | .scanRangeU64 => scanRangeScalar
  | .scanMultiPredicate => scanMultiPredicateScalar

/-- The kernels that are registered beside the scalar one. -/
def kernels : Operator → List Kernel
  | .scanEqU64 => [scanEqAvx512L3, scanEqAvx512Ddr5, scanEqAvx512Cxl, scanEqAvx2]
  | .scanRangeU64 => [scanRangeAvx512L3]
  | .scanMultiPredicate => [scanMultiPredicateAvx512]

/-! ## Agreement -/

variable {w : Nat} {bits : List Bool → Nat} {lane cell : UInt64 → Bool}

theorem blocks_eq (hbits : ∀ mask, bits mask = mask.count true) (cells : List UInt64) :
    blocks w bits cell cell cells = cells.countP cell := by
  fun_induction blocks w bits cell cell cells with
  | case1 cells _ ih =>
    rw [hbits, ih, count_eq_countP, countP_map]
    conv_rhs => rw [← take_append_drop w cells, countP_append]
    simp [Function.comp_def]
  | case2 => rfl

theorem blocks_replicate {c : UInt64} :
    blocks 8 (List.count true) lane cell (List.replicate 8 c) = if lane c then 8 else 0 := by
  rw [blocks, if_pos (by simp), blocks, if_neg (by simp)]
  cases h : lane c <;> simp [h]

/-- The block kernel is the scalar one exactly when a lane is compared as a cell is. -/
theorem blocks_eq_iff : (∀ cells, blocks 8 (List.count true) lane cell cells = cells.countP cell) ↔
    ∀ c, lane c = cell c := by
  constructor
  · intro h c
    have := h (List.replicate 8 c)
    rw [blocks_replicate, countP_replicate] at this
    cases hl : lane c <;> cases hc : cell c <;> simp_all
  · intro h
    rw [funext h]
    exact blocks_eq fun _ => rfl

theorem toInt_toInt64 {a : UInt64} : a.toInt64.toInt =
    if a.toNat < 2 ^ 63 then (a.toNat : Int) else a.toNat - 2 ^ 64 := by
  have : a.toInt64.toInt = a.toBitVec.toInt := rfl
  rw [this, BitVec.toInt_eq_toNat_cond]
  simp
  grind

/-- The signed range is the unsigned one exactly when the bounds have the same sign. -/
theorem inRange_eq_iff {p : KernelParams} : (∀ c, inRangeSigned p c = inRange p c) ↔
    (p.low.toNat < 2 ^ 63 ↔ p.high.toNat < 2 ^ 63) := by
  have hlow := p.low.toNat_lt
  have hhigh := p.high.toNat_lt
  simp only [inRange, inRangeSigned, ← Bool.decide_and, decide_eq_decide, ge_iff_le,
    Int64.le_iff_toInt_le, UInt64.le_iff_toNat_le, toInt_toInt64]
  constructor
  · intro h
    have := h p.low
    omega
  · intro h c
    have := c.toNat_lt
    omega

/-! ## Conjunctions

A comparison with a target of the other half of the numbers has one result for a whole half of the
cells, and the opposite one when the numbers are signed. -/

/-- The predicates in use. -/
def used (p : KernelParams) : List (PredicateOp × UInt64) :=
  [(p.pred1Op, p.target), (p.pred2Op, p.target2), (p.pred3Op, p.target3)].take
    p.predicateCount.toNat

/-- The sign bit is set. -/
def isHigh (x : UInt64) : Bool := 2 ^ 63 ≤ x.toNat

/-- A predicate in use compares with a target of the other half. -/
def Crossed (p : KernelParams) (op : PredicateOp) (half : Bool) : Prop :=
  ∃ q ∈ used p, q.1 = op ∧ isHigh q.2 ≠ half

/-- The cell passes the equalities and the comparisons with targets of its own half. -/
def Within (p : KernelParams) (c : UInt64) : Prop :=
  ∀ q ∈ used p, q.1 = .eq ∨ isHigh q.2 = isHigh c → evalPredicate c q.2 q.1 = true

variable {p : KernelParams} {c : UInt64}

theorem allOf_eq {test : UInt64 → UInt64 → PredicateOp → Bool} :
    allOf test p c = (used p).all fun q => test c q.2 q.1 := by
  unfold allOf used
  generalize p.predicateCount.toNat = n
  match n with
  | 0 | 1 | 2 => simp
  | n + 3 => simp [Bool.and_assoc]

theorem allOf_iff {test : UInt64 → UInt64 → PredicateOp → Bool} {bad : PredicateOp}
    (hwithin : ∀ t op, op = .eq ∨ isHigh t = isHigh c → test c t op = evalPredicate c t op)
    (hcross : ∀ t op, op ≠ .eq → isHigh t ≠ isHigh c → (test c t op = true ↔ op ≠ bad))
    (hbad : bad ≠ .eq) : allOf test p c = true ↔ Within p c ∧ ¬Crossed p bad (isHigh c) := by
  rw [allOf_eq, all_eq_true]
  constructor
  · intro h
    refine ⟨fun q hq hown => hwithin q.2 q.1 hown ▸ h q hq, ?_⟩
    rintro ⟨q, hq, rfl, hother⟩
    exact (hcross q.2 q.1 hbad hother).mp (h q hq) rfl
  · rintro ⟨hown, hcrossed⟩ q hq
    by_cases h : q.1 = .eq ∨ isHigh q.2 = isHigh c
    · exact hwithin q.2 q.1 h ▸ hown q hq h
    · rw [not_or] at h
      exact (hcross q.2 q.1 h.1 h.2).mpr fun hop => hcrossed ⟨q, hq, hop, h.2⟩

theorem allOf_evalPredicate : allOf evalPredicate p c = true ↔
    Within p c ∧ ¬Crossed p (if isHigh c then .lt else .gt) (isHigh c) := by
  refine allOf_iff (fun _ _ _ => rfl) (fun t op hop hother => ?_) (by split <;> simp)
  simp only [isHigh, ne_eq, decide_eq_decide] at hother
  cases op <;> simp [isHigh, evalPredicate, UInt64.lt_iff_toNat_lt] at hop ⊢ <;> omega

theorem allOf_cmpMask : allOf cmpMask p c = true ↔
    Within p c ∧ ¬Crossed p (if isHigh c then .gt else .lt) (isHigh c) := by
  refine allOf_iff (fun t op hown => ?_) (fun t op hop hother => ?_) (by split <;> simp)
  · simp only [isHigh, decide_eq_decide] at hown
    cases op <;> simp [evalPredicate, cmpMask, UInt64.lt_iff_toNat_lt, Int64.lt_iff_toInt_lt,
      toInt_toInt64] at hown ⊢ <;> split_ifs <;> omega
  · simp only [isHigh, ne_eq, decide_eq_decide] at hother
    have hc := c.toNat_lt
    have ht := t.toNat_lt
    cases op <;> simp [isHigh, cmpMask, Int64.lt_iff_toInt_lt, toInt_toInt64] at hop ⊢ <;>
      split_ifs <;> omega

/-- In each half of the cells a `>` with a target of the other half is in use together with such a
`<`, or no cell passes what is left. -/
theorem multiPredicate_eq_iff : (∀ c, allOf cmpMask p c = allOf evalPredicate p c) ↔
    ∀ half, (Crossed p .gt half ↔ Crossed p .lt half) ∨ ∀ c, isHigh c = half → ¬Within p c := by
  have hiff : ∀ c, allOf cmpMask p c = allOf evalPredicate p c ↔
      (Within p c → (Crossed p .gt (isHigh c) ↔ Crossed p .lt (isHigh c))) := by
    intro c
    rw [Bool.eq_iff_iff, allOf_evalPredicate, allOf_cmpMask]
    cases isHigh c <;> simp <;> tauto
  simp only [hiff]
  constructor
  · intro h half
    by_cases hcrossed : Crossed p .gt half ↔ Crossed p .lt half
    · exact .inl hcrossed
    · exact .inr fun c hc hown => hcrossed (hc ▸ h c hown)
  · intro h c hown
    rcases h (isHigh c) with hcrossed | hnone
    · exact hcrossed
    · exact absurd hown (hnone c rfl)

/-- When all kernels of an operator count the same cells. -/
theorem kernels_agree_iff (p : KernelParams) :
    (∀ op, ∀ k ∈ kernels op, ∀ cells, k p cells = scalarKernel op p cells) ↔
      (p.low.toNat < 2 ^ 63 ↔ p.high.toNat < 2 ^ 63) ∧
      ∀ half, (Crossed p .gt half ↔ Crossed p .lt half) ∨ ∀ c, isHigh c = half → ¬Within p c := by
  rw [← inRange_eq_iff, ← multiPredicate_eq_iff, ← blocks_eq_iff, ← blocks_eq_iff]
  constructor
  · intro h
    exact ⟨h .scanRangeU64 _ (mem_singleton_self _), h .scanMultiPredicate _ (mem_singleton_self _)⟩
  · rintro ⟨hrange, hmulti⟩ (_ | _ | _) k hk cells
    · have h512 : scanEqAvx512L3 p cells = scanEqScalar p cells := blocks_eq (fun _ => rfl) cells
      have h2 : scanEqAvx2 p cells = scanEqScalar p cells := by
        refine blocks_eq (fun mask => Nat.div_eq_of_eq_mul_right (by decide) ?_) cells
        induction mask with
        | nil => rfl
        | cons b mask ih => cases b <;> simp [ih]; omega
      simp only [kernels, mem_cons, not_mem_nil, or_false] at hk
      rcases hk with rfl | rfl | rfl | rfl
      exacts [h512, h512, h512, h2]
    · rw [mem_singleton.mp hk]
      exact hrange cells
    · rw [mem_singleton.mp hk]
      exact hmulti cells

def wideRange : KernelParams := ⟨0, 0, 0, 0, 0xFFFFFFFFFFFFFFFF, .eq, .eq, .eq, 0⟩

theorem range_kernels_differ : scanRangeScalar wideRange (List.replicate 8 5) = 8 ∧
    scanRangeAvx512L3 wideRange (List.replicate 8 5) = 0 := by
  refine ⟨by decide, ?_⟩
  rw [scanRangeAvx512L3, blocks_replicate]
  decide

end TensorVault.Scan
