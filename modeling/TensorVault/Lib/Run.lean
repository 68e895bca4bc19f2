import Mathlib.Data.List.Infix

/-!
# Runs of a partial step function

A system is a step function `σ → α → Option σ`; `none` is a step that does not happen. Two rules
carry an invariant through a run: from a condition that is enough for a step (`invariant_of_along`),
and from one that is also necessary (`invariant_iff_along`).
-/

namespace Run

open List

variable {σ α : Type} (step : σ → α → Option σ)

/-- Run the actions from the left. -/
def run : σ → List α → Option σ
  | s, [] => some s
  | s, a :: as =>
    match step s a with
    | some s' => run s' as
    | none => none

/-- The condition `P` holds at every step of the run, in the state the step is taken in. -/
def Along (P : σ → α → Prop) : σ → List α → Prop
  | _, [] => True
  | s, a :: as => P s a ∧ ∀ s', step s a = some s' → Along P s' as

/-- Whether a condition holds at every step is found by running. -/
instance decidableAlong (P : σ → α → Prop) [∀ s a, Decidable (P s a)] :
    ∀ (s : σ) (as : List α), Decidable (Along step P s as)
  | _, [] => .isTrue trivial
  | s, a :: as =>
    match h : step s a with
    | none => decidable_of_iff (P s a) (by simp [Along, h])
    | some u =>
      have : Decidable (Along step P u as) := decidableAlong P u as
      decidable_of_iff (P s a ∧ Along step P u as) (by simp [Along, h])

variable {step} {s s' : σ} {a : α} {as : List α}

theorem run_cons (h : run step s (a :: as) = some s') :
    ∃ u, step s a = some u ∧ run step u as = some s' := by
  rw [run] at h
  cases hs : step s a with
  | none => rw [hs] at h; cases h
  | some u => rw [hs] at h; exact ⟨u, rfl, h⟩

variable {s u : σ} {P : σ → α → Prop} {Q : σ → Prop}

theorem run_cons_of_step (h : step s a = some u) : run step s (a :: as) = run step u as := by
  rw [run, h]

theorem run_append (s : σ) (as bs : List α) :
    run step s (as ++ bs) = (run step s as).bind fun u => run step u bs := by
  induction as generalizing s with
  | nil => rfl
  | cons a as ih =>
    rw [cons_append, run, run]
    cases step s a with
    | none => rfl
    | some u => exact ih u

/-- A condition that the actions meet in every state. -/
theorem along_of_forall (h : ∀ a ∈ as, ∀ s, P s a) (s : σ) : Along step P s as := by
  induction as generalizing s with
  | nil => trivial
  | cons a as ih =>
    exact ⟨h a mem_cons_self s, fun u _ => ih (forall_mem_cons.mp h).2 u⟩

/-- A condition that all actions but the last meet in every state. -/
theorem along_concat {b : α} (h : ∀ a ∈ as, ∀ s, P s a)
    (hb : ∀ u, run step s as = some u → P u b) : Along step P s (as ++ [b]) := by
  induction as generalizing s with
  | nil => exact ⟨hb s rfl, fun _ _ => trivial⟩
  | cons a as ih =>
    refine ⟨h a mem_cons_self s, fun u hu => ih (forall_mem_cons.mp h).2 fun v hv => hb v ?_⟩
    rwa [run_cons_of_step hu]

/-- A condition that holds along a run holds along the rest of it. -/
theorem Along.of_append {bs : List α}
    (h : Along step P s (as ++ bs)) (hrun : run step s as = some u) : Along step P u bs := by
  induction as generalizing s with
  | nil =>
    cases hrun
    exact h
  | cons a as ih =>
    obtain ⟨v, hv, hrest⟩ := run_cons hrun
    exact ih (h.2 v hv) hrest

/-- One more step of a run. -/
theorem Along.concat (h : Along step P s as)
    (hrun : run step s as = some u) (ha : P u a) : Along step P s (as ++ [a]) := by
  induction as generalizing s with
  | nil =>
    cases hrun
    exact ⟨ha, fun _ _ => trivial⟩
  | cons b as ih =>
    obtain ⟨v, hv, hrest⟩ := run_cons hrun
    refine ⟨h.1, fun w hw => ?_⟩
    cases hv.symm.trans hw
    exact ih (h.2 v hv) hrest

/-- **Invariant rule.** A condition that lets every step keep `Q` keeps it in every state of the
run. -/
theorem invariant_of_along (hstep : ∀ s a s', Q s → P s a → step s a = some s' → Q s') :
    ∀ {as : List α} {s : σ}, Q s → Along step P s as →
      ∀ pre, pre <+: as → ∀ u, run step s pre = some u → Q u
  | _, s, hs, _, [], _, u, hu => by
    cases hu
    exact hs
  | [], _, _, _, b :: pre, hpre, _, _ => by simp at hpre
  | a :: as, s, hs, hP, b :: pre, hpre, u, hu => by
    obtain ⟨rfl, hpre'⟩ := cons_prefix_cons.mp hpre
    obtain ⟨v, hv, hu⟩ := run_cons hu
    exact invariant_of_along hstep (hstep s _ v hs hP.1 hv) (hP.2 v hv) pre hpre' u hu

/-- **Exact invariant rule.** Where a step keeps `Q` exactly under `P`, a run that gets through
keeps `Q` throughout exactly when `P` holds at every step of it. -/
theorem invariant_iff_along (hstep : ∀ s a s', Q s → step s a = some s' → (Q s' ↔ P s a)) (hs : Q s)
    (hrun : run step s as = some s') :
    (∀ pre, pre <+: as → ∀ u, run step s pre = some u → Q u) ↔ Along step P s as := by
  constructor
  · intro hall
    induction as generalizing s with
    | nil => trivial
    | cons a as ih =>
      obtain ⟨v, hv, hrest⟩ := run_cons hrun
      have hQv : Q v := by
        refine hall [a] ⟨as, rfl⟩ v ?_
        rw [run_cons_of_step hv, run]
      refine ⟨(hstep s a v hs hv).mp hQv, fun w hw => ?_⟩
      cases hv.symm.trans hw
      refine ih hQv hrest fun pre hpre u hu => hall (a :: pre) ?_ u ?_
      · exact cons_prefix_cons.mpr ⟨rfl, hpre⟩
      · rw [run_cons_of_step hv]
        exact hu
  · intro hP
    exact invariant_of_along (fun s a s' hQ hPa hsa => (hstep s a s' hQ hsa).mpr hPa) hs hP

end Run
