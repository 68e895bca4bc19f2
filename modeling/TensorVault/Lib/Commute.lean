import TensorVault.Lib.Run

/-!
# Reordering a run

Two actions commute if they can be carried out in either order, from every state. Actions with
keys can be carried out key by key, in any order of the keys, if actions with different keys
commute (`run_regroup`); the actions with one given key can come first if those they overtake
commute with them (`run_extract`).
-/

namespace Run

open List

variable {σ α ι : Type} {step : σ → α → Option σ} {a : α}

def Commute (step : σ → α → Option σ) (a b : α) : Prop :=
  ∀ s, (step s a).bind (fun u => step u b) = (step s b).bind fun u => step u a

theorem run_cons_eq_bind {s : σ} {a : α} {as : List α} :
    run step s (a :: as) = (step s a).bind fun u => run step u as := by
  rw [run]
  cases step s a <;> rfl

theorem Commute.run_swap {a b : α} (h : Commute step a b) (s : σ) (as : List α) :
    run step s (a :: b :: as) = run step s (b :: a :: as) := by
  have htwo : ∀ x y, run step s (x :: y :: as) =
      ((step s x).bind fun u => step u y).bind fun u => run step u as := by
    intro x y
    rw [run_cons_eq_bind, Option.bind_assoc]
    exact congrArg _ (funext fun u => run_cons_eq_bind)
  rw [htwo a b, htwo b a, h s]

/-- An action goes past the actions it commutes with. -/
theorem run_move {bs : List α} (h : ∀ b ∈ bs, Commute step a b) (s : σ) (cs : List α) :
    run step s (a :: (bs ++ cs)) = run step s (bs ++ a :: cs) := by
  induction bs generalizing s with
  | nil => rfl
  | cons b bs ih =>
    rw [cons_append, (h b mem_cons_self).run_swap, cons_append, run_cons_eq_bind, run_cons_eq_bind]
    exact congrArg _ (funext fun u => ih (forall_mem_cons.mp h).2 u)

variable [DecidableEq ι] {k : ι} {entries : List (ι × α)}

/-- The actions with the given key. -/
def bucket (k : ι) (entries : List (ι × α)) : List α :=
  (entries.filter fun p => p.1 = k).map Prod.snd

theorem mem_bucket : a ∈ bucket k entries ↔ (k, a) ∈ entries := by
  unfold bucket
  rw [mem_map]
  constructor
  · rintro ⟨⟨i, b⟩, hmem, rfl⟩
    obtain ⟨hmem, hk⟩ := mem_filter.mp hmem
    rw [← of_decide_eq_true hk]
    exact hmem
  · intro h
    exact ⟨(k, a), mem_filter.mpr ⟨h, by simp⟩, rfl⟩

/-- **One key first.** -/
theorem run_extract
    (h : entries.Pairwise fun p q => p.1 ≠ k → q.1 = k → Commute step p.2 q.2) (s : σ) :
    run step s (entries.map Prod.snd) =
      run step s (bucket k entries ++ (entries.filter fun p => p.1 ≠ k).map Prod.snd) := by
  induction entries generalizing s with
  | nil => rfl
  | cons p entries ih =>
    obtain ⟨hp, hrest⟩ := pairwise_cons.mp h
    rw [map_cons, run_cons_eq_bind]
    by_cases hk : p.1 = k
    · have hbucket : bucket k (p :: entries) = p.2 :: bucket k entries := by simp [bucket, hk]
      rw [hbucket, filter_cons_of_neg (by simpa using hk), cons_append, run_cons_eq_bind]
      exact congrArg _ (funext fun u => ih hrest u)
    · have hbucket : bucket k (p :: entries) = bucket k entries := by simp [bucket, hk]
      have hmove : ∀ b ∈ bucket k entries, Commute step p.2 b := fun b hb =>
        hp (k, b) (mem_bucket.mp hb) hk rfl
      rw [hbucket, filter_cons_of_pos (by simpa using hk), map_cons,
        ← run_move hmove, run_cons_eq_bind]
      exact congrArg _ (funext fun u => ih hrest u)

theorem bucket_filter_ne {l : ι} (h : l ≠ k) (entries : List (ι × α)) :
    bucket l (entries.filter fun p => p.1 ≠ k) = bucket l entries := by
  unfold bucket
  rw [filter_filter]
  refine congrArg _ (filter_congr fun p _ => ?_)
  by_cases hl : p.1 = l
  · simp [hl, h]
  · simp [hl]

/-- **Key by key.** -/
theorem run_regroup {keys : List ι} (hnodup : keys.Nodup) (hcover : ∀ p ∈ entries, p.1 ∈ keys)
    (h : entries.Pairwise fun p q => p.1 ≠ q.1 → Commute step p.2 q.2) (s : σ) :
    run step s (entries.map Prod.snd) = run step s (keys.flatMap fun k => bucket k entries) := by
  induction keys generalizing entries s with
  | nil =>
    have hempty : entries = [] := eq_nil_iff_forall_not_mem.mpr fun p hp => by
      cases hcover p hp
    rw [hempty]
    rfl
  | cons k keys ih =>
    obtain ⟨hk, hnodup⟩ := nodup_cons.mp hnodup
    have hone : entries.Pairwise fun p q => p.1 ≠ k → q.1 = k → Commute step p.2 q.2 :=
      h.imp fun hpq hp hq => hpq fun heq => hp (heq.trans hq)
    have hrest : ∀ p ∈ entries.filter fun p => p.1 ≠ k, p.1 ∈ keys := by
      intro p hp
      obtain ⟨hp, hne⟩ := mem_filter.mp hp
      rcases mem_cons.mp (hcover p hp) with heq | hmem
      · exact absurd heq (by simpa using hne)
      · exact hmem
    have hbuckets : (keys.flatMap fun l => bucket l (entries.filter fun p => p.1 ≠ k)) =
        keys.flatMap fun l => bucket l entries := by
      refine flatMap_congr fun l hl => bucket_filter_ne ?_ entries
      rintro rfl
      exact hk hl
    rw [run_extract hone, flatMap_cons, run_append, run_append, ← hbuckets]
    exact congrArg _ (funext fun u => ih hnodup hrest (h.filter _) u)

end Run
