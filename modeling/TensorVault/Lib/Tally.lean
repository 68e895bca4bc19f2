import Mathlib.Data.List.Basic

/-!
# Counters that saturate

A list of items is split up, the pieces are counted from zero, and their counters are added up. No
counter goes past a cap. However the list is split, a counter shows the number of its items, or the
cap.
-/

namespace Tally

/-- A list that is split up; a leaf is counted in one go. -/
inductive Split (α : Type) where
  | leaf (items : List α)
  | node (left right : Split α)

def Split.items {α : Type} : Split α → List α
  | .leaf xs => xs
  | .node l r => l.items ++ r.items

/-- A way to split lists up. -/
structure Scheduler where
  split : {α : Type} → List α → Split α
  items_split : ∀ {α : Type} (xs : List α), (split xs).items = xs

variable {α : Type} [DecidableEq α] {cap : Nat} {f : α → Nat} {a : α}

/-- One more of an item. -/
def bump (cap : Nat) (f : α → Nat) (a : α) : α → Nat :=
  fun b => if a = b then min cap (f b + 1) else f b

def Split.tally (cap : Nat) : Split α → α → Nat
  | .leaf xs => xs.foldl (bump cap) fun _ => 0
  | .node l r => fun a => min cap (l.tally cap a + r.tally cap a)

theorem foldl_bump (xs : List α) (hf : f a ≤ cap) :
    xs.foldl (bump cap) f a = min cap (f a + xs.count a) := by
  induction xs generalizing f with
  | nil => exact (Nat.min_eq_right hf).symm
  | cons x xs ih =>
    have hx : bump cap f x a ≤ cap := by
      unfold bump
      split <;> omega
    rw [List.foldl_cons, ih hx, List.count_cons, bump]
    by_cases h : x = a
    · simp only [h, if_true, beq_self_eq_true]
      omega
    · simp [h]

theorem Split.tally_eq {s : Split α} : s.tally cap a = min cap (s.items.count a) := by
  induction s with
  | leaf xs => rw [Split.tally, foldl_bump xs (Nat.zero_le _), Nat.zero_add, items]
  | node l r ihl ihr =>
    simp only [Split.tally, ihl, ihr, items, List.count_append]
    omega

theorem Scheduler.tally_eq (S : Scheduler) (xs : List α) (a : α) :
    (S.split xs).tally cap a = min cap (xs.count a) := by
  rw [Split.tally_eq, S.items_split]

end Tally
