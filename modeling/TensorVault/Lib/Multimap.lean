import Mathlib.Data.List.Basic
import Mathlib.Data.List.Nodup
import Mathlib.Data.List.Perm.Basic

/-!
# Lists of values by key

A map from keys to lists, filled with `entry(key).or_default().push(value)`. The keys stand in the
order of their first values.
-/

namespace Multimap

open List

variable {K V : Type} [DecidableEq K] (pairs : List (K × V)) (key : K)

/-- `entry(key).or_default().push(value)`. -/
def push (key : K) (value : V) : List (K × List V) → List (K × List V)
  | [] => [(key, [value])]
  | (k, vs) :: rest =>
    if k = key then (k, vs ++ [value]) :: rest else (k, vs) :: push key value rest

/-- The values of a key. -/
def get (m : List (K × List V)) (key : K) : List V := (m.lookup key).getD []

/-- The map of the given pairs. -/
def ofPairs (pairs : List (K × V)) : List (K × List V) :=
  pairs.foldl (fun m p => push p.1 p.2 m) []

variable {vs : List V} {m : List (K × List V)} {value : V}

theorem get_cons {k : K} {key : K} :
    get ((k, vs) :: m) key = if k = key then vs else get m key := by
  unfold get
  rw [lookup_cons]
  by_cases h : k = key
  · rw [if_pos h, h, beq_self_eq_true]
    rfl
  · rw [if_neg h, beq_eq_false_iff_ne.mpr (Ne.symm h)]

theorem get_push {key' : K} :
    get (push key value m) key' = if key = key' then get m key' ++ [value] else get m key' := by
  induction m with
  | nil => rw [push, get_cons]; rfl
  | cons p m ih =>
    obtain ⟨k, vs⟩ := p
    rw [push]
    by_cases h : k = key
    · rw [if_pos h, get_cons, get_cons, h]
      split <;> rfl
    · rw [if_neg h, get_cons, get_cons, ih]
      by_cases hk : k = key'
      · rw [if_pos hk, if_neg (fun h' => h (hk.trans h'.symm)), if_pos hk]
      · simp only [if_neg hk]

/-- The map holds under each key its values, in order. -/
theorem get_ofPairs : get (ofPairs pairs) key = (pairs.filter fun p => p.1 = key).map (·.2) := by
  have hfold : ∀ m : List (K × List V), get (pairs.foldl (fun m p => push p.1 p.2 m) m) key =
      get m key ++ (pairs.filter fun p => p.1 = key).map (·.2) := by
    induction pairs with
    | nil => intro m; exact (append_nil _).symm
    | cons p ps ih =>
      intro m
      rw [foldl_cons, ih, get_push, filter_cons]
      by_cases h : p.1 = key <;> simp [h]
  exact hfold []

theorem keys_push :
    (push key value m).map (·.1) =
      if key ∈ m.map (·.1) then m.map (·.1) else m.map (·.1) ++ [key] := by
  induction m with
  | nil => rfl
  | cons p m ih =>
    obtain ⟨k, vs⟩ := p
    rw [push]
    by_cases h : k = key
    · rw [if_pos h, if_pos (by simp [h])]
      rfl
    · rw [if_neg h, map_cons, ih, map_cons]
      by_cases hm : key ∈ m.map (·.1)
      · rw [if_pos hm, if_pos (mem_cons_of_mem _ hm)]
      · rw [if_neg hm, if_neg (by rw [mem_cons]; exact not_or.mpr ⟨Ne.symm h, hm⟩)]
        rfl

theorem nodup_keys_ofPairs : ((ofPairs pairs).map (·.1)).Nodup := by
  have hfold : ∀ m : List (K × List V), (m.map (·.1)).Nodup →
      ((pairs.foldl (fun m p => push p.1 p.2 m) m).map (·.1)).Nodup := by
    induction pairs with
    | nil => exact fun m h => h
    | cons p ps ih =>
      intro m h
      refine ih _ ?_
      rw [keys_push]
      split
      · exact h
      · next hmem => exact nodup_append.mpr ⟨h, nodup_singleton _, fun a ha b hb hab =>
          hmem (mem_singleton.mp hb ▸ hab ▸ ha)⟩
  exact hfold [] nodup_nil

theorem mem_keys_ofPairs : key ∈ (ofPairs pairs).map (·.1) ↔ ∃ p ∈ pairs, p.1 = key := by
  have hfold : ∀ m : List (K × List V),
      key ∈ (pairs.foldl (fun m p => push p.1 p.2 m) m).map (·.1) ↔
        key ∈ m.map (·.1) ∨ ∃ p ∈ pairs, p.1 = key := by
    induction pairs with
    | nil => intro m; simp
    | cons p ps ih =>
      intro m
      rw [foldl_cons, ih, keys_push]
      split
      · next hmem =>
        constructor
        · rintro (h | ⟨q, hq, he⟩)
          · exact .inl h
          · exact .inr ⟨q, mem_cons_of_mem _ hq, he⟩
        · rintro (h | ⟨q, hq, he⟩)
          · exact .inl h
          · rcases mem_cons.mp hq with rfl | hq
            · exact .inl (he ▸ hmem)
            · exact .inr ⟨q, hq, he⟩
      · rw [mem_append, mem_singleton]
        constructor
        · rintro ((h | h) | ⟨q, hq, he⟩)
          · exact .inl h
          · exact .inr ⟨p, mem_cons_self, h.symm⟩
          · exact .inr ⟨q, mem_cons_of_mem _ hq, he⟩
        · rintro (h | ⟨q, hq, he⟩)
          · exact .inl (.inl h)
          · rcases mem_cons.mp hq with rfl | hq
            · exact .inl (.inr he.symm)
            · exact .inr ⟨q, hq, he⟩
  rw [ofPairs, hfold []]
  simp

variable {m : List (K × List V)}

/-- An entry of a map with different keys holds the values of its key. -/
theorem get_of_mem (hnd : (m.map (·.1)).Nodup) {key : K} (h : (key, vs) ∈ m) : get m key = vs := by
  induction m with
  | nil => cases h
  | cons p m ih =>
    obtain ⟨k, ws⟩ := p
    rw [map_cons, nodup_cons] at hnd
    rw [get_cons]
    rcases mem_cons.mp h with heq | hmem
    · cases heq
      rw [if_pos rfl]
    · have hk : key ∈ m.map (·.1) := mem_map_of_mem hmem
      rw [if_neg (fun he : k = key => hnd.1 (he ▸ hk)), ih hnd.2 hmem]

/-! ## Maps that are put together -/

/-- The pairs of a map. -/
def toPairs (m : List (K × List V)) : List (K × V) := m.flatMap fun p => p.2.map fun v => (p.1, v)

theorem ofPairs_eq_map : ofPairs pairs =
    ((ofPairs pairs).map (·.1)).map fun k => (k, (pairs.filter fun p => p.1 = k).map (·.2)) := by
  rw [map_map]
  refine (map_id _).symm.trans (map_congr_left fun p hp => Prod.ext rfl ?_)
  rw [Function.comp_apply, ← get_ofPairs, get_of_mem (nodup_keys_ofPairs pairs) hp]
  rfl

/-- Putting the groups of other maps into a map is putting their pairs into it. -/
theorem foldl_push_eq :
    m.foldl (fun acc p => p.2.foldl (fun acc v => push p.1 v acc) acc) [] =
      ofPairs (toPairs m) := by
  rw [ofPairs, toPairs, foldl_flatMap]
  simp only [foldl_map]

theorem values_toPairs (hnd : (m.map (·.1)).Nodup) {key : K} :
    ((toPairs m).filter fun p => p.1 = key).map (·.2) = get m key := by
  induction m with
  | nil => rfl
  | cons p m ih =>
    obtain ⟨k, vs⟩ := p
    rw [map_cons, nodup_cons] at hnd
    have hcons : toPairs ((k, vs) :: m) = vs.map (fun v => (k, v)) ++ toPairs m := rfl
    rw [hcons, filter_append, map_append, ih hnd.2, get_cons]
    by_cases hk : k = key
    · subst hk
      have hnone : get m k = [] := by
        have hno : m.lookup k = none := by
          rw [lookup_eq_none_iff]
          intro q hq
          rw [bne_iff_ne]
          exact fun he => hnd.1 (mem_map.mpr ⟨q, hq, he.symm⟩)
        rw [get, hno]
        rfl
      rw [if_pos rfl, hnone, append_nil, filter_map]
      simp [Function.comp_def]
    · rw [if_neg hk, filter_map]
      simp [Function.comp_def, hk]

/-- The values of a key do not depend on the order of the entries. -/
theorem get_perm {m' : List (K × List V)} (hperm : m'.Perm m)
    (hnd : (m.map (·.1)).Nodup) {key : K} : get m' key = get m key := by
  have hnd' : (m'.map (·.1)).Nodup := (hperm.map (·.1)).nodup_iff.mpr hnd
  cases h : m.lookup key with
  | some vs =>
    have hmem : (key, vs) ∈ m := by
      obtain ⟨l₁, l₂, rfl, _⟩ := lookup_eq_some_iff.mp h
      simp
    rw [get_of_mem hnd hmem, get_of_mem hnd' (hperm.mem_iff.mpr hmem)]
  | none =>
    have h' : m'.lookup key = none := by
      rw [lookup_eq_none_iff] at h ⊢
      exact fun p hp => h p (hperm.mem_iff.mp hp)
    rw [get, get, h, h']

end Multimap
