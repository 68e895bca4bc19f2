import Mathlib.Data.List.Basic
import Mathlib.Data.List.Count
import Mathlib.Data.List.Induction
import Mathlib.Data.List.Nodup

/-!
# Lists of writes to the places of a list

A loop that visits `(place, value)` pairs and changes one place at a time is a fold of
`List.modify`. What it leaves at a place only depends on the writes to this place, in their
order: `applyWrites_getElem?` turns a property of the whole loop into one of a single place.
-/

namespace Writes

open List

variable {α β γ : Type} {x : α} {l : List α} {i : Nat} {ws : List (Nat × β)} {f : β → α → α}

/-- The values written to place `i`, in order. -/
def at_ (i : Nat) (ws : List (Nat × β)) : List β :=
  ws.filterMap fun w => if w.1 = i then some w.2 else none

/-- Run the writes from the left, each changing its own place by `f`. -/
def applyWrites (f : β → α → α) (l : List α) (ws : List (Nat × β)) : List α :=
  ws.foldl (fun l w => l.modify w.1 (f w.2)) l

/-- A list filled up to length `n` with copies of `x`. -/
def padTo (n : Nat) (x : α) (l : List α) : List α := l ++ List.replicate (n - l.length) x

theorem padTo_of_le {n : Nat} (h : n ≤ l.length) : padTo n x l = l := by
  unfold padTo
  rw [Nat.sub_eq_zero_of_le h, replicate_zero, append_nil]

theorem length_padTo (n : Nat) (x : α) (l : List α) : (padTo n x l).length = max l.length n := by
  unfold padTo
  rw [length_append, length_replicate]
  omega

/-! ## The writes of one place -/

@[simp] theorem at_nil : at_ i ([] : List (Nat × β)) = [] := rfl

theorem at_cons {w : Nat × β} :
    at_ i (w :: ws) = if w.1 = i then w.2 :: at_ i ws else at_ i ws := by
  unfold at_
  rw [filterMap_cons]
  split <;> split <;> simp_all

theorem at_append {vs : List (Nat × β)} :
    at_ i (ws ++ vs) = at_ i ws ++ at_ i vs := filterMap_append

theorem at_flatMap {rows : List γ} {f : γ → List (Nat × β)} :
    at_ i (rows.flatMap f) = rows.flatMap fun r => at_ i (f r) := by
  induction rows with
  | nil => rfl
  | cons r rows ih => rw [flatMap_cons, at_append, ih, flatMap_cons]

theorem mem_at {v : β} : v ∈ at_ i ws ↔ (i, v) ∈ ws := by
  unfold at_
  rw [mem_filterMap]
  constructor
  · rintro ⟨⟨j, u⟩, hmem, h⟩
    split at h
    · next hj =>
      cases h
      have hij : j = i := hj
      rwa [hij] at hmem
    · cases h
  · intro hmem
    exact ⟨(i, v), hmem, if_pos rfl⟩

/-- Writing a row of values to a list of places writes place `i` as often as it is listed. -/
theorem length_at_zip (i : Nat) :
    ∀ (idxs : List Nat) (row : List β), idxs.length ≤ row.length →
      (at_ i (idxs.zip row)).length = idxs.count i
  | [], _, _ => by simp
  | _ :: _, [], h => by simp at h
  | j :: idxs, v :: row, h => by
    have ih := length_at_zip i idxs row (by simpa using h)
    rw [zip_cons_cons, at_cons, count_cons]
    by_cases hj : j = i
    · simp [hj, ih]
    · simp [hj, ih]

/-- Writing a row of values to all places writes each place once. -/
theorem at_zip_range {row : List β} : at_ i ((List.range row.length).zip row) = row[i]?.toList := by
  have haux : ∀ (row : List β) (s : Nat), at_ i ((List.range' s row.length).zip row) =
      if s ≤ i then row[i - s]?.toList else [] := by
    intro row
    induction row with
    | nil => intro s; simp
    | cons v row ih =>
      intro s
      rw [length_cons, range'_succ, zip_cons_cons, at_cons, ih]
      rcases Nat.lt_trichotomy i s with hlt | rfl | hgt
      · simp [show ¬ s ≤ i by omega, show ¬ s + 1 ≤ i by omega, show s ≠ i by omega]
      · simp [show ¬ i + 1 ≤ i by omega]
      · obtain ⟨k, rfl⟩ : ∃ k, i = s + 1 + k := ⟨i - (s + 1), by omega⟩
        simp [show s ≤ s + 1 + k by omega, show s + 1 + k - s = k + 1 by omega,
          show s ≠ s + 1 + k by omega]
  rw [range_eq_range', haux]
  simp

/-- A loop over rows that writes the values `xs` in each row writes a row it visits with all of
`xs`, and no other row. -/
theorem at_flatMap_map {rows : List Nat} (hrows : rows.Nodup) {xs : List β} {r : Nat} :
    at_ r (rows.flatMap fun row => xs.map fun x => (row, x)) = if r ∈ rows then xs else [] := by
  have hrow : ∀ row, at_ r (xs.map fun x => (row, x)) = if row = r then xs else [] := by
    intro row
    induction xs with
    | nil => simp
    | cons x xs ih =>
      rw [map_cons, at_cons, ih]
      by_cases h : row = r <;> simp [h]
  induction rows with
  | nil => rfl
  | cons row rows ih =>
    obtain ⟨hnot, hrest⟩ := nodup_cons.mp hrows
    rw [flatMap_cons, at_append, hrow, ih hrest]
    by_cases h : row = r
    · subst h
      simp [hnot]
    · simp [h, Ne.symm h]

/-- The same loop with a column in front of each value: the writes of one column. -/
theorem at_flatMap_key (rows : List Nat) (xs : List β) (key : β → Nat) (c : Nat) :
    at_ c (rows.flatMap fun row => xs.map fun x => (key x, row, x)) =
      rows.flatMap fun row => (xs.filter fun x => key x = c).map fun x => (row, x) := by
  rw [at_flatMap]
  congr 1
  funext row
  induction xs with
  | nil => rfl
  | cons x xs ih =>
    rw [map_cons, at_cons, ih]
    by_cases h : key x = c <;> simp [h]

/-- Overwriting keeps the last value. -/
theorem foldl_const {g : β → α} {vs : List β} :
    vs.foldl (fun _ v => g v) x = (vs.getLast?.map g).getD x := by
  induction vs using List.reverseRecOn with
  | nil => rfl
  | append_singleton vs v _ => simp

/-! ## The result at one place -/

@[simp] theorem length_applyWrites : (applyWrites f l ws).length = l.length := by
  induction ws generalizing l with
  | nil => rfl
  | cons w ws ih =>
    show (applyWrites f (l.modify w.1 (f w.2)) ws).length = l.length
    rw [ih, length_modify]

/-- **Writes are local.** A place ends up with its own writes folded over its old value. -/
theorem applyWrites_getElem? :
    (applyWrites f l ws)[i]? = l[i]?.map fun x => (at_ i ws).foldl (fun x v => f v x) x := by
  induction ws generalizing l with
  | nil => simp [applyWrites]
  | cons w ws ih =>
    show (applyWrites f (l.modify w.1 (f w.2)) ws)[i]? = _
    rw [ih, getElem?_modify, at_cons]
    by_cases hw : w.1 = i
    · simp [hw, Function.comp_def]
    · simp [hw]

end Writes
