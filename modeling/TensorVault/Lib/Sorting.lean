import Mathlib.Data.List.Basic
import Mathlib.Data.List.Perm.Basic
import Mathlib.Order.Lattice

/-!
# Sorted lists and their beginnings

`Listed le rows returned limit` says that `returned` is what `ORDER BY .. LIMIT` is to return: the
beginning of a list that has the rows and is sorted by `le`. A stable sort by another order `code`
puts the row `a` before the row `b` if `before code a b`, so whether it gives a sorted beginning for
`le` comes down to pairs of rows:

* `listed_mergeSort_iff` — for a sort of all rows that is cut off afterwards
* `listed_mergeSort_take_iff` — for a sort of the first rows only
-/

namespace Sorting

open List

variable {α κ : Type} {le : κ → κ → Bool}

structure TotalPreorder (le : α → α → Bool) : Prop where
  trans : ∀ a b c, le a b = true → le b c = true → le a c = true
  total : ∀ a b, (le a b || le b a) = true

theorem TotalPreorder.linear [LinearOrder κ] : TotalPreorder fun a b : κ => decide (a ≤ b) where
  trans a b c hab hbc := by
    simp only [decide_eq_true_eq] at *
    exact le_trans hab hbc
  total a b := by simpa using le_total a b

/-! ## Several keys -/

/-- An order or its reverse. -/
def directed (le : κ → κ → Bool) (ascending : Bool) (a b : κ) : Bool :=
  if ascending then le a b else le b a

/-- The order by a list of keys with their directions: the first key that differs decides. -/
def lexOn (le : κ → κ → Bool) : List ((α → κ) × Bool) → α → α → Bool
  | [], _, _ => true
  | (key, ascending) :: rest, a, b =>
    if directed le ascending (key a) (key b) then
      if directed le ascending (key b) (key a) then lexOn le rest a b else true
    else false

theorem TotalPreorder.directed (h : TotalPreorder le) (ascending : Bool) :
    TotalPreorder (Sorting.directed le ascending) := by
  cases ascending with
  | true => exact h
  | false => exact ⟨fun a b c hab hbc => h.trans c b a hbc hab, fun a b => h.total b a⟩

theorem TotalPreorder.lexOn (h : TotalPreorder le)
    (keys : List ((α → κ) × Bool)) : TotalPreorder (lexOn le keys) := by
  induction keys with
  | nil => exact ⟨fun _ _ _ _ _ => rfl, fun _ _ => rfl⟩
  | cons key keys ih =>
    obtain ⟨key, ascending⟩ := key
    have hd := h.directed ascending
    constructor
    · intro a b c hab hbc
      have habc := hd.trans (key a) (key b) (key c)
      have hbca := hd.trans (key b) (key c) (key a)
      have hcab := hd.trans (key c) (key a) (key b)
      have hrest := ih.trans a b c
      simp only [Sorting.lexOn] at hab hbc ⊢
      grind
    · intro a b
      have htotal := hd.total (key a) (key b)
      have hrest := ih.total a b
      simp only [Sorting.lexOn]
      grind

/-! ## Beginnings of sorted lists -/

/-- The beginning of a list that has the rows and is sorted. -/
def Listed (le : α → α → Bool) (rows returned : List α) (limit : Option Nat) : Prop :=
  ∃ s : List α, s.Perm rows ∧ s.Pairwise (fun a b => le a b = true) ∧
    returned = s.take (limit.getD s.length)

/-- The beginning of an arrangement of the rows is listed if it is sorted and nothing behind it
belongs before a part of it. -/
theorem listed_take_iff {le : α → α → Bool} (hle : TotalPreorder le) {rows order : List α}
    (hperm : order.Perm rows) (limit : Option Nat) :
    Listed le rows (order.take (limit.getD rows.length)) limit ↔
      (order.take (limit.getD rows.length)).Pairwise (fun a b => le a b = true) ∧
        ∀ a ∈ order.take (limit.getD rows.length), ∀ b ∈ order.drop (limit.getD rows.length),
          le a b = true := by
  generalize hk : limit.getD rows.length = k
  constructor
  · rintro ⟨s, hs, hsorted, heq⟩
    rw [hs.length_eq, hk] at heq
    have hdrop : (order.drop k).Perm (s.drop k) := by
      have happend : (s.take k ++ order.drop k).Perm (s.take k ++ s.drop k) := by
        rw [← heq, take_append_drop, heq, take_append_drop]
        exact hperm.trans hs.symm
      exact (perm_append_left_iff _).mp happend
    rw [← take_append_drop k s, pairwise_append] at hsorted
    rw [heq]
    exact ⟨hsorted.1, fun a ha b hb => hsorted.2.2 a ha b (hdrop.mem_iff.mp hb)⟩
  · rintro ⟨hfirst, hrest⟩
    have hlen : (order.take k ++ (order.drop k).mergeSort le).length = rows.length := by
      rw [length_append, length_mergeSort, ← length_append, take_append_drop, hperm.length_eq]
    refine ⟨order.take k ++ (order.drop k).mergeSort le, ?_, ?_, ?_⟩
    · have hsort := mergeSort_perm (order.drop k) le
      exact (hsort.append_left _).trans (by rw [take_append_drop]; exact hperm)
    · rw [pairwise_append]
      refine ⟨hfirst, pairwise_mergeSort hle.trans hle.total _, fun a ha b hb => ?_⟩
      exact hrest a ha b (mem_mergeSort.mp hb)
    · rw [hlen, hk]
      rcases Nat.le_total k order.length with hle' | hge
      · rw [take_append_of_le_length (by rw [length_take]; omega), take_take, Nat.min_self]
      · rw [drop_of_length_le hge, take_of_length_le hge, mergeSort_nil,
          append_nil, take_of_length_le hge]

/-! ## Stable sorting -/

/-- A stable sort puts the row `a` before the row `b`. -/
def before (code : Nat → Nat → Bool) (a b : Nat) : Bool := code a b && (!code b a || decide (a < b))

variable {a b : Nat} {code : Nat → Nat → Bool} {rows l : List Nat}

theorem before_asymm {code : Nat → Nat → Bool} (h : before code a b = true) :
    before code b a = false := by
  simp only [before] at h ⊢
  grind

/-- Two elements do not stand in both orders in a list without repetitions. -/
theorem not_pair_sublist {a b : α} : ∀ {l : List α}, l.Nodup → [a, b].Sublist l → ¬[b, a].Sublist l
  | [], _, h => nomatch h
  | c :: l, hnodup, h => by
    obtain ⟨hc, hl⟩ := nodup_cons.mp hnodup
    intro h'
    cases h with
    | cons _ h =>
      cases h' with
      | cons _ h' => exact not_pair_sublist hl h h'
      | cons_cons _ _ => exact hc (h.subset (by simp))
    | cons_cons _ h =>
      cases h' with
      | cons _ h' => exact hc (h'.subset (by simp))
      | cons_cons _ _ => exact hc (h.subset (by simp))

theorem pair_sublist_of_lt (hab : a < b) :
    ∀ {l : List Nat}, l.Pairwise (· < ·) → a ∈ l → b ∈ l → [a, b].Sublist l
  | [], _, ha, _ => nomatch ha
  | c :: l, hl, ha, hb => by
    obtain ⟨hc, hl⟩ := pairwise_cons.mp hl
    rcases mem_cons.mp hb with rfl | hb'
    · rcases mem_cons.mp ha with rfl | ha'
      · omega
      · exact absurd (hc a ha') (by omega)
    · rcases mem_cons.mp ha with rfl | ha'
      · exact List.Sublist.cons_cons a (singleton_sublist.mpr hb')
      · exact (pair_sublist_of_lt hab hl ha' hb').cons _

theorem pairwise_before_mergeSort (hcode : TotalPreorder code) (hrows : rows.Pairwise (· < ·)) :
    (rows.mergeSort code).Pairwise (fun a b => before code a b = true) := by
  have hnodup : (rows.mergeSort code).Nodup :=
    (mergeSort_perm rows code).nodup_iff.mpr (hrows.imp Nat.ne_of_lt)
  rw [pairwise_iff_forall_sublist]
  intro a b hab
  have hcab : code a b = true :=
    pairwise_iff_forall_sublist.mp (pairwise_mergeSort hcode.trans hcode.total rows) hab
  cases hcba : code b a with
  | false => simp [before, hcab, hcba]
  | true =>
    have ha : a ∈ rows := mem_mergeSort.mp (hab.subset (by simp))
    have hb : b ∈ rows := mem_mergeSort.mp (hab.subset (by simp))
    rcases Nat.lt_trichotomy a b with hlt | rfl | hgt
    · simp [before, hcab, hlt]
    · exact absurd (hnodup.sublist hab) (by simp)
    · have hba := pair_sublist_mergeSort hcode.trans hcode.total hcba
        (pair_sublist_of_lt hgt hrows hb ha)
      exact absurd hba (not_pair_sublist hnodup hab)

/-- A relation that holds along a list holds from a row to one that comes after it. -/
theorem rel_of_before (hl : l.Pairwise (fun a b => before code a b = true)) {R : Nat → Nat → Prop}
    (hR : l.Pairwise R) (ha : a ∈ l) (hb : b ∈ l) (hab : before code a b = true) : R a b := by
  obtain ⟨i, hi, rfl⟩ := getElem_of_mem ha
  obtain ⟨j, hj, rfl⟩ := getElem_of_mem hb
  rcases Nat.lt_trichotomy i j with hlt | rfl | hgt
  · exact pairwise_iff_getElem.mp hR i j hi hj hlt
  · exact absurd (hab.symm.trans (before_asymm hab)) (by decide)
  · have hba := pairwise_iff_getElem.mp hl j i hj hi hgt
    exact absurd (hba.symm.trans (before_asymm hab)) (by decide)

/-- The rows that come before a row are as many as its place in the list says. -/
theorem countP_before (h : l.Pairwise (fun a b => before code a b = true)) {i : Nat}
    (hi : i < l.length) : l.countP (before code · l[i]) = i := by
  induction l generalizing i with
  | nil => exact absurd hi (Nat.not_lt_zero i)
  | cons c l ih =>
    obtain ⟨hc, hl⟩ := pairwise_cons.mp h
    cases i with
    | zero =>
      rw [countP_eq_zero]
      intro b hb hbc
      rcases mem_cons.mp hb with rfl | hb
      · have := before_asymm hbc
        simp_all
      · have := before_asymm (hc b hb)
        simp_all
    | succ i =>
      have hi' : i < l.length := by simpa using hi
      rw [getElem_cons_succ, countP_cons, ih hl hi', if_pos (hc _ (getElem_mem hi'))]

/-- In a sorted list the first rows are those that few rows come before. -/
theorem mem_take_mergeSort (hcode : TotalPreorder code) (hrows : rows.Pairwise (· < ·)) {k : Nat}
    (ha : a ∈ rows) : a ∈ (rows.mergeSort code).take k ↔ rows.countP (before code · a) < k := by
  have hsorted := pairwise_before_mergeSort hcode hrows
  have hnodup : (rows.mergeSort code).Nodup :=
    (mergeSort_perm rows code).nodup_iff.mpr (hrows.imp Nat.ne_of_lt)
  have ha' : a ∈ rows.mergeSort code := mem_mergeSort.mpr ha
  obtain ⟨i, hi, rfl⟩ := getElem_of_mem ha'
  rw [← (mergeSort_perm rows code).countP_eq, countP_before hsorted hi, mem_take_iff_getElem]
  constructor
  · rintro ⟨j, hj, heq⟩
    rw [(getElem_inj hnodup).mp heq] at hj
    omega
  · intro hik
    exact ⟨i, by omega, rfl⟩

/-- A stable sort is sorted for another order if this order agrees with where it puts the rows. -/
theorem pairwise_mergeSort_iff (hcode : TotalPreorder code) (hrows : rows.Pairwise (· < ·))
    {le : Nat → Nat → Bool} : (rows.mergeSort code).Pairwise (fun a b => le a b = true) ↔
      ∀ a ∈ rows, ∀ b ∈ rows, before code a b = true → le a b = true := by
  have hsorted := pairwise_before_mergeSort hcode hrows
  constructor
  · intro h a ha b hb hab
    exact rel_of_before hsorted h (mem_mergeSort.mpr ha) (mem_mergeSort.mpr hb) hab
  · intro h
    refine hsorted.imp_of_mem fun ha hb hab => ?_
    exact h _ (mem_mergeSort.mp ha) _ (mem_mergeSort.mp hb) hab

/-- For every row that is among the first by `code`, and every row that comes after it by `code`,
the two are in this order by `le`. -/
def Agrees (le code : Nat → Nat → Bool) (rows : List Nat) (limit : Option Nat) : Prop :=
  ∀ a ∈ rows, ∀ b ∈ rows, before code a b = true →
    rows.countP (before code · a) < limit.getD rows.length → le a b = true

variable {le : Nat → Nat → Bool}

/-- Sorting all rows by `code` and returning the first ones is right exactly if `le` agrees. -/
theorem listed_mergeSort_iff (hle : TotalPreorder le)
    (hcode : TotalPreorder code) (hrows : rows.Pairwise (· < ·)) (limit : Option Nat) :
    Listed le rows ((rows.mergeSort code).take (limit.getD rows.length)) limit ↔
      Agrees le code rows limit := by
  unfold Agrees
  rw [listed_take_iff hle (mergeSort_perm rows code)]
  generalize limit.getD rows.length = k
  have hsorted := pairwise_before_mergeSort hcode hrows
  constructor
  · rintro ⟨hfirst, hrest⟩ a ha b hb hab hcount
    have hamem := (mem_take_mergeSort hcode hrows ha).mpr hcount
    by_cases hbmem : b ∈ (rows.mergeSort code).take k
    · exact rel_of_before (hsorted.sublist (take_sublist k _)) hfirst hamem hbmem hab
    · have hb' : b ∈ (rows.mergeSort code).take k ++ (rows.mergeSort code).drop k := by
        rw [take_append_drop]
        exact mem_mergeSort.mpr hb
      exact hrest a hamem b ((mem_append.mp hb').resolve_left hbmem)
  · intro h
    have hsplit := hsorted
    rw [← take_append_drop k (rows.mergeSort code), pairwise_append] at hsplit
    have hmem : ∀ a ∈ (rows.mergeSort code).take k, a ∈ rows := fun a ha =>
      mem_mergeSort.mp (mem_of_mem_take ha)
    have hcount : ∀ a ∈ (rows.mergeSort code).take k, rows.countP (before code · a) < k :=
      fun a ha => (mem_take_mergeSort hcode hrows (hmem a ha)).mp ha
    constructor
    · refine hsplit.1.imp_of_mem fun ha hb hab => ?_
      exact h _ (hmem _ ha) _ (hmem _ hb) hab (hcount _ ha)
    · intro a ha b hb
      exact h a (hmem a ha) b (mem_mergeSort.mp (mem_of_mem_drop hb))
        (hsplit.2.2 a ha b hb) (hcount a ha)

/-- `le` agrees with `code` among the first rows, and every later row may come after them. -/
def AgreesFirst (le code : Nat → Nat → Bool) (rows : List Nat) (limit : Option Nat) : Prop :=
  (∀ a ∈ rows.take (limit.getD rows.length), ∀ b ∈ rows.take (limit.getD rows.length),
    before code a b = true → le a b = true) ∧
  ∀ a ∈ rows.take (limit.getD rows.length), ∀ b ∈ rows.drop (limit.getD rows.length), le a b = true

/-- Sorting only the first rows by `code` is right exactly if `le` agrees. -/
theorem listed_mergeSort_take_iff (hle : TotalPreorder le)
    (hcode : TotalPreorder code) (hrows : rows.Pairwise (· < ·)) (limit : Option Nat) :
    Listed le rows ((rows.take (limit.getD rows.length)).mergeSort code) limit ↔
      AgreesFirst le code rows limit := by
  unfold AgreesFirst
  generalize hk : limit.getD rows.length = k
  have hperm : ((rows.take k).mergeSort code ++ rows.drop k).Perm rows := by
    have hsort := mergeSort_perm (rows.take k) code
    exact (hsort.append_right _).trans (by rw [take_append_drop])
  have htake : ((rows.take k).mergeSort code ++ rows.drop k).take k =
      (rows.take k).mergeSort code := by
    rcases Nat.le_total k rows.length with h | h
    · rw [take_append_of_le_length (by rw [length_mergeSort, length_take]; omega)]
      exact take_of_length_le (by rw [length_mergeSort, length_take]; omega)
    · rw [drop_of_length_le h, append_nil]
      exact take_of_length_le (by rw [length_mergeSort, length_take]; omega)
  have hdrop : ((rows.take k).mergeSort code ++ rows.drop k).drop k = rows.drop k := by
    rcases Nat.le_total k rows.length with h | h
    · exact drop_left' (by rw [length_mergeSort, length_take]; omega)
    · rw [drop_of_length_le h, append_nil]
      exact drop_of_length_le (by rw [length_mergeSort, length_take]; omega)
  have hlisted := listed_take_iff hle hperm limit
  rw [hk, htake, hdrop] at hlisted
  rw [hlisted, pairwise_mergeSort_iff hcode (hrows.sublist (take_sublist k rows))]
  simp only [mem_mergeSort]

end Sorting
