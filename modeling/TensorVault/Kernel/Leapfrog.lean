import Mathlib.Data.List.Forall2
import Mathlib.Data.UInt

/-!
# The leapfrog join

The keys that several sorted slices have in common. A pass seeks every iterator to the largest
current key, which grows when one of them lands beyond it; a pass after which all stand on that key
emits it (`run_common`).
-/

namespace TensorVault.Leapfrog

open List

/-- The keys from the position on; the current key is the first. -/
abbrev SliceSortedIterator := List UInt64

/-- The partition point of sorted keys. -/
def seek (it : SliceSortedIterator) (key : UInt64) : SliceSortedIterator := it.dropWhile (· < key)

/-- The largest current key, if no iterator is exhausted. -/
def maxKey : List SliceSortedIterator → UInt64 → Option UInt64
  | [], m => some m
  | [] :: _, _ => none
  | (k :: _) :: its, m => maxKey its (if k > m then k else m)

/-- One iterator of a pass: where it stands, the largest key, and whether it stands on it. -/
def seekOne (it : SliceSortedIterator) (m : UInt64) : Option
    (SliceSortedIterator × UInt64 × Bool) :=
  if it.head? = some m then some (it, m, true)
  else if it.head?.any (· > m) then some (it, m, false)
  else match seek it m with
    | [] => none
    | k :: ks =>
      if k = m then some (k :: ks, m, true)
      else some (k :: ks, if k > m then k else m, false)

def seekPass : List SliceSortedIterator → UInt64 → Bool →
    Option (List SliceSortedIterator × UInt64 × Bool)
  | [], m, allMatch => some ([], m, allMatch)
  | it :: its, m, allMatch => do
    let (it, m, hit) ← seekOne it m
    let (its, m, allMatch) ← seekPass its m (allMatch && hit)
    some (it :: its, m, allMatch)

/-- The loop of the join; it gives the keys that are emitted from here on. -/
def loop : Nat → List SliceSortedIterator → Option (List UInt64)
  | 0, _ => none
  | fuel + 1, its =>
    match maxKey its 0 with
    | none => some []
    | some m =>
      match seekPass its m true with
      | some (it :: its, m, true) =>
        if it.tail = [] then some [m] else (loop fuel (it.tail :: its)).map (m :: ·)
      | some (its, _, false) => loop fuel its
      | _ => some []

def run (fuel : Nat) : List SliceSortedIterator → Option (List UInt64)
  | [] => some []
  | [it] => some it
  | its => if its.any (·.isEmpty) then some [] else loop fuel its

variable {it : SliceSortedIterator} {its : List SliceSortedIterator} {m m' x k : UInt64}

theorem maxKey_none (h : maxKey its m = none) : [] ∈ its := by
  fun_induction maxKey its m <;> simp_all

theorem maxKey_some (h : maxKey its m = some m') : m ≤ m' ∧
    (∀ it ∈ its, ∀ k ∈ it.head?, k ≤ m') ∧ (m' = m ∨ ∃ it ∈ its, it.head? = some m') := by
  fun_induction maxKey its m with
  | case1 m => simp_all
  | case2 => cases h
  | case3 k ks its m ih =>
    obtain ⟨hle, hheads, hmax⟩ := ih h
    simp only [mem_cons, forall_eq_or_imp, exists_eq_or_imp, head?_cons,
      Option.mem_some_iff, Option.some.injEq]
    grind

theorem le_of_mem_sorted (hs : it.Pairwise (· < ·)) (hk : it.head? = some k)
    (hx : x ∈ it) : k ≤ x := by
  obtain ⟨ks, rfl⟩ := head?_eq_some_iff.mp hk
  have := (pairwise_cons.mp hs).1 x
  grind

theorem mem_seek (hx : x ∈ it) (hm : m ≤ x) : x ∈ seek it m := by
  rw [← takeWhile_append_dropWhile (p := (· < m)) (l := it), mem_append] at hx
  refine hx.resolve_left fun h => ?_
  have := all_eq_true.mp (all_takeWhile (l := it) (p := (· < m))) x h
  grind

theorem seek_head (h : (seek it m).head? = some k) : m ≤ k := by
  have := head?_dropWhile_not (· < m) it
  rw [← seek, h] at this
  simpa using this

/-- No iterator stands beyond the largest key, so all of them are sought to it. -/
theorem seekOne_eq (h : ∀ k ∈ it.head?, k ≤ m) :
    seekOne it m = (seek it m).head?.map fun k => (seek it m, k, k == m) := by
  unfold seekOne
  split
  next hm =>
    obtain ⟨ks, rfl⟩ := head?_eq_some_iff.mp hm
    simp [seek]
  next =>
    rw [if_neg (by simpa [Option.any_eq_true] using h)]
    cases hseek : seek it m with
    | nil => rfl
    | cons k ks =>
      have hk := seek_head (by rw [hseek]; rfl)
      by_cases heq : k = m
      · simp [heq]
      · have hlt : m < k := by grind
        simp [heq, hlt]

/-- What a pass does with its iterators, if it comes to the end. -/
structure Passed (its : List SliceSortedIterator) (m : UInt64) (its' : List SliceSortedIterator)
    (m' : UInt64) (allMatch : Bool) : Prop where
  nil : its' = [] → its = []
  sorted : ∀ it ∈ its', it.Pairwise (· < ·)
  back : ∀ x, (∀ it ∈ its', x ∈ it) → ∀ it ∈ its, x ∈ it
  keeps : ∀ x, m ≤ x → (∀ it ∈ its, x ∈ it) → ∀ it ∈ its', x ∈ it
  of_all : allMatch = true → m' = m ∧ ∀ it ∈ its', it.head? = some m
  moves : its'.flatten.length + (if allMatch then 0 else 1) ≤ its.flatten.length

theorem seekPass_spec (b : Bool) (hs : ∀ it ∈ its, it.Pairwise (· < ·))
    (hheads : ∀ it ∈ its, ∀ k ∈ it.head?, k ≤ m) :
    (seekPass its m b = none ∧ ∀ x, m ≤ x → ¬∀ it ∈ its, x ∈ it) ∨
    ∃ its' m' allMatch, seekPass its m b = some (its', m', b && allMatch) ∧
      Passed its m its' m' allMatch := by
  induction its generalizing m b with
  | nil => exact .inr ⟨[], m, true, by simp [seekPass], by constructor <;> simp⟩
  | cons it its ih =>
    rw [forall_mem_cons] at hs hheads
    rw [seekPass, seekOne_eq hheads.1]
    simp only [forall_mem_cons]
    cases hk : (seek it m).head? with
    | none =>
      refine .inl ⟨rfl, fun x hx hmem => ?_⟩
      have := mem_seek hmem.1 hx
      simp_all
    | some k =>
      have hle := seek_head hk
      have hsuf : seek it m <:+ it := dropWhile_suffix _
      have hsorted := hs.1.sublist hsuf.sublist
      have hkeep {x} (hx : m ≤ x) (hmem : x ∈ it) := le_of_mem_sorted hsorted hk (mem_seek hmem hx)
      rcases ih (m := k) (b && k == m) hs.2 fun it h j hj =>
        UInt64.le_trans (hheads.2 it h j hj) hle with
          ⟨hnone, hmiss⟩ | ⟨its', m', allMatch, hpass, hp⟩
      · exact .inl ⟨by simp [hnone], fun x hx hmem => hmiss x (hkeep hx hmem.1) hmem.2⟩
      · refine .inr ⟨seek it m :: its', m', k == m && allMatch, by simp [hpass, Bool.and_assoc],
          by simp, by simpa using ⟨hsorted, hp.sorted⟩, fun x h => ?_, fun x hx hmem => ?_,
            fun h => ?_, ?_⟩
        · rw [forall_mem_cons] at h
          exact forall_mem_cons.mpr ⟨hsuf.mem h.1, hp.back x h.2⟩
        · rw [forall_mem_cons] at hmem ⊢
          exact ⟨mem_seek hmem.1 hx, hp.keeps x (hkeep hx hmem.1) hmem.2⟩
        · simp only [Bool.and_eq_true, beq_iff_eq] at h
          obtain ⟨rfl, hall⟩ := h
          simpa [hk] using hp.of_all hall
        · have hmoves := hp.moves
          have := hsuf.length_le
          have hshort : k ≠ m → (seek it m).length ≠ it.length := by
            intro hkm hlen
            rw [hsuf.eq_of_length hlen] at hk
            have := hheads.1 k hk
            grind
          simp only [flatten_cons, length_append]
          grind

/-- The keys that all slices have, in increasing order. -/
structure Common (its : List SliceSortedIterator) (r : List UInt64) : Prop where
  sorted : r.Pairwise (· < ·)
  mem : ∀ x, x ∈ r ↔ its ≠ [] ∧ ∀ it ∈ its, x ∈ it

theorem loop_common {fuel : Nat} (hne : its ≠ []) (hs : ∀ it ∈ its, it.Pairwise (· < ·))
    (hfuel : its.flatten.length < fuel) : ∃ r, loop fuel its = some r ∧ Common its r := by
  induction fuel generalizing its with
  | zero => cases hfuel
  | succ fuel ih =>
    rw [loop]
    cases hmax : maxKey its 0 with
    | none =>
      refine ⟨[], rfl, .nil, fun x => ?_⟩
      have := maxKey_none hmax
      grind
    | some m =>
      obtain ⟨-, hheads, hm⟩ := maxKey_some hmax
      have hmin {x} (hx : ∀ it ∈ its, x ∈ it) : m ≤ x := by
        rcases hm with rfl | ⟨it, hit, hhead⟩
        · grind
        · exact le_of_mem_sorted (hs it hit) hhead (hx it hit)
      rcases seekPass_spec true hs hheads with ⟨hnone, hmiss⟩ | ⟨its', m', allMatch, hpass, hp⟩
      · simp only [hnone]
        refine ⟨[], rfl, .nil, fun x => ?_⟩
        have := hmiss x
        grind
      · have hiff x : (∀ it ∈ its, x ∈ it) ↔ ∀ it ∈ its', x ∈ it :=
          ⟨fun h => hp.keeps x (hmin h) h, hp.back x⟩
        have hmoves := hp.moves
        simp only [hpass, Bool.true_and]
        cases its' with
        | nil => exact absurd (hp.nil rfl) hne
        | cons it its' =>
          cases allMatch with
          | false =>
            obtain ⟨r, hr, hc⟩ := @ih (it :: its') (by simp) hp.sorted (by grind)
            exact ⟨r, hr, hc.sorted, fun x => by rw [hc.mem, hiff]; simp [hne]⟩
          | true =>
            obtain ⟨rfl, hall⟩ := hp.of_all rfl
            obtain ⟨ks, rfl⟩ := head?_eq_some_iff.mp (hall it (by simp))
            obtain ⟨hpair, hrest⟩ := forall_mem_cons.mp hp.sorted
            obtain ⟨hfirst, hks⟩ := pairwise_cons.mp hpair
            obtain ⟨r, hr, hc⟩ : ∃ r, (if ks = [] then some [m'] else
                (loop fuel (ks :: its')).map (m' :: ·)) = some (m' :: r) ∧
                  Common (ks :: its') r := by
              split
              · exact ⟨[], rfl, .nil, by simp_all⟩
              · obtain ⟨r, hr, hc⟩ := @ih (ks :: its') (by simp)
                  (forall_mem_cons.mpr ⟨hks, hrest⟩) (by grind)
                exact ⟨r, by rw [hr]; rfl, hc⟩
            refine ⟨m' :: r, hr, pairwise_cons.mpr ⟨fun x hx => ?_, hc.sorted⟩, fun x => ?_⟩
            · exact hfirst x (((hc.mem x).mp hx).2 ks (by simp))
            · have hhead : ∀ it ∈ its', m' ∈ it := fun it h =>
                mem_of_mem_head? (hall it (by simp [h]))
              rw [mem_cons, hc.mem, hiff]
              simp only [mem_cons]
              grind

/-- **The join** returns the common keys, each once and in order. -/
theorem run_common {fuel : Nat} (hs : ∀ it ∈ its, it.Pairwise (· < ·))
    (hfuel : its.flatten.length < fuel) : ∃ r, run fuel its = some r ∧ Common its r := by
  unfold run
  split
  · exact ⟨[], rfl, .nil, by simp⟩
  · exact ⟨_, rfl, by simpa using hs, by simp⟩
  · split
    · refine ⟨[], rfl, .nil, ?_⟩
      simp_all
      grind
    · exact loop_common (by assumption) hs hfuel

theorem run_extremes : ∃ r, run 6 [[0, 3, 0xFFFFFFFFFFFFFFFF], [0, 0xFFFFFFFFFFFFFFFF]] = some r ∧
    Common [[0, 3, 0xFFFFFFFFFFFFFFFF], [0, 0xFFFFFFFFFFFFFFFF]] r :=
  run_common (by decide) (by decide)

end TensorVault.Leapfrog
