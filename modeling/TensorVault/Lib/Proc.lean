import Mathlib.Init

/-!
# Processes that end

A process reads and changes a state and either returns a value or ends for good; the state it leaves
behind counts in both cases. `wp x Q E w` says that from `w` the process returns with `Q`, or ends
with `E`. The rules for the primitives are `simp` lemmas; `Keeps` is for relations every step
respects.
-/

/-- A process on states `ω` that returns an `α`, or ends with an `ε`. -/
def Proc (ω ε α : Type) : Type := ω → Except ε α × ω

namespace Proc

variable {ω ε α β : Type}

instance : Monad (Proc ω ε) where
  pure a := fun w => (.ok a, w)
  bind x f := fun w =>
    match x w with
    | (.ok a, w') => f a w'
    | (.error e, w') => (.error e, w')

/-- The current state. -/
def get : Proc ω ε ω := fun w => (.ok w, w)

def modify (f : ω → ω) : Proc ω ε Unit := fun w => (.ok (), f w)

/-- The process ends. -/
def stop (e : ε) : Proc ω ε α := fun w => (.error e, w)

/-! ## Weakest preconditions -/

/-- From `w` the process returns with `Q`, or ends with `E`. -/
def wp (x : Proc ω ε α) (Q : α → ω → Prop) (E : ε → ω → Prop) (w : ω) : Prop :=
  match x w with
  | (.ok a, w') => Q a w'
  | (.error e, w') => E e w'

variable {Q : α → ω → Prop} {E : ε → ω → Prop} {w : ω} {x : Proc ω ε α} {e : ε} {f : α → Proc ω ε β}
  {Q' : α → ω → Prop} {E' : ε → ω → Prop} {a : α} {w' : ω}

@[simp] theorem wp_pure {a : α} : wp (pure a : Proc ω ε α) Q E w ↔ Q a w := Iff.rfl

@[simp] theorem wp_get {Q : ω → ω → Prop} : wp (get : Proc ω ε ω) Q E w ↔ Q w w := Iff.rfl

@[simp] theorem wp_modify {Q : Unit → ω → Prop} {f : ω → ω} :
    wp (modify f : Proc ω ε Unit) Q E w ↔ Q () (f w) := Iff.rfl

@[simp] theorem wp_stop : wp (stop e : Proc ω ε α) Q E w ↔ E e w := Iff.rfl

@[simp] theorem wp_bind {Q : β → ω → Prop} :
    wp (x >>= f) Q E w ↔ wp x (fun a w' => wp (f a) Q E w') E w := by
  have hbind : (x >>= f) w =
      match x w with
      | (.ok a, w') => f a w'
      | (.error e, w') => (.error e, w') := rfl
  unfold wp
  rw [hbind]
  rcases x w with ⟨a | a, w'⟩ <;> rfl

theorem wp_mono (h : wp x Q E w)
    (hQ : ∀ a w', Q a w' → Q' a w') (hE : ∀ e w', E e w' → E' e w') : wp x Q' E' w := by
  unfold wp at h ⊢
  split at h
  · exact hQ _ _ h
  · exact hE _ _ h

theorem wp_and (h : wp x Q E w) (h' : wp x Q' E' w) :
    wp x (fun a w' => Q a w' ∧ Q' a w') (fun e w' => E e w' ∧ E' e w') w := by
  unfold wp at h h' ⊢
  split at h <;> simp_all

/-- What a run that returned says. -/
theorem of_wp_ok (h : wp x Q E w) (hrun : x w = (.ok a, w')) : Q a w' := by
  unfold wp at h
  rwa [hrun] at h

theorem of_wp_error (h : wp x Q E w) (hrun : x w = (.error e, w')) : E e w' := by
  unfold wp at h
  rwa [hrun] at h

theorem wp_of_forall (hok : ∀ a w', x w = (.ok a, w') → Q a w')
    (herror : ∀ e w', x w = (.error e, w') → E e w') : wp x Q E w := by
  unfold wp
  split
  · next h => exact hok _ _ h
  · next h => exact herror _ _ h

/-- A postcondition that holds of everything. -/
theorem wp_any (hQ : ∀ a w', Q a w') (hE : ∀ e w', E e w') : wp x Q E w :=
  wp_of_forall (fun a w' _ => hQ a w') fun e w' _ => hE e w'

/-- The same condition however the process ends. -/
theorem wp_state {P : ω → Prop} : wp x (fun _ => P) (fun _ => P) w ↔ P (x w).2 := by
  unfold wp
  split <;> simp_all

theorem exists_of_ok (h : (x w).1 = .ok a) : ∃ w', x w = (.ok a, w') :=
  ⟨(x w).2, Prod.ext h rfl⟩

/-- A process that returns in just one case. -/
theorem ok_iff_of_wp {x : Proc ω ε Unit} {p : Prop}
    (h : wp x (fun _ _ => p) (fun _ _ => ¬ p) w) : (x w).1 = .ok () ↔ p := by
  unfold wp at h
  rcases hrun : x w with ⟨e | ⟨⟩, w'⟩ <;> rw [hrun] at h
  · exact iff_of_false (fun heq => by cases heq) h
  · exact iff_of_true rfl h

/-! ## Relations every step respects -/

/-- The state before and the state after are related, however the process ends. -/
def Keeps (R : ω → ω → Prop) (x : Proc ω ε α) : Prop := ∀ w, R w (x w).2

section Keeps

variable {R : ω → ω → Prop}

theorem Keeps.pure (hrefl : ∀ w, R w w) (a : α) : Keeps R (pure a : Proc ω ε α) := hrefl

theorem Keeps.get (hrefl : ∀ w, R w w) : Keeps R (get : Proc ω ε ω) := hrefl

theorem Keeps.stop (hrefl : ∀ w, R w w) : Keeps R (stop e : Proc ω ε α) := hrefl

theorem Keeps.modify {f : ω → ω} (h : ∀ w, R w (f w)) : Keeps R (modify f : Proc ω ε Unit) := h

theorem Keeps.bind (htrans : ∀ a b c, R a b → R b c → R a c)
    (hx : Keeps R x) (hf : ∀ a, Keeps R (f a)) : Keeps R (x >>= f) := by
  intro w
  have hbind : (x >>= f) w =
      match x w with
      | (.ok a, w') => f a w'
      | (.error e, w') => (.error e, w') := rfl
  rw [hbind]
  have hstep := hx w
  rcases hrun : x w with ⟨e | a, w'⟩
  · rw [hrun] at hstep
    exact hstep
  · rw [hrun] at hstep
    exact htrans _ _ _ hstep (hf a w')

theorem Keeps.of_run (h : Keeps R x) {r : Except ε α} (hrun : x w = (r, w')) : R w w' := by
  have hstep := h w
  rwa [hrun] at hstep

theorem Keeps.wp (h : Keeps R x) (w : ω) : wp x (fun _ w' => R w w') (fun _ w' => R w w') w := by
  have hstep := h w
  unfold Proc.wp
  split <;> simp_all

end Keeps

end Proc
