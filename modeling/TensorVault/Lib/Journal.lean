import TensorVault.Lib.Run

/-!
# Replaying a journal

A journal is a list of entries, each an action under an owner. Replay runs the actions of the
owners that count, in the order of the journal; `effect` is what an action does to a state, and
`none` is an action that ends the run.

The rules here say how a replay changes when the journal grows and when the owners that count
change.
-/

namespace Journal

open Run

variable {σ ι α : Type} (effect : σ → α → Option σ)

/-- The actions that count. -/
def counted (live : ι → Bool) (entries : List (ι × α)) : List α :=
  (entries.filter fun e => live e.1).map Prod.snd

/-- The state after the actions that count. -/
def replay (live : ι → Bool) (s : σ) (entries : List (ι × α)) : Option σ :=
  run effect s (counted live entries)

variable {effect} {as bs : List (ι × α)} {live : ι → Bool} {s : σ} {a : α}

theorem counted_append : counted live (as ++ bs) = counted live as ++ counted live bs := by
  simp [counted]

theorem replay_append :
    replay effect live s (as ++ bs) =
      (replay effect live s as).bind fun u => replay effect live u bs := by
  unfold replay
  rw [counted_append, run_append]

theorem replay_singleton {i : ι} :
    replay effect live s [(i, a)] = if live i then effect s a else some s := by
  unfold replay
  split
  · next hi =>
    have hone : counted live [(i, a)] = [a] := by simp [counted, hi]
    rw [hone, run]
    cases effect s a <;> rfl
  · next hi =>
    have hone : counted live [(i, a)] = [] := by simp [counted, hi]
    rw [hone]
    rfl

variable {live : ι → Bool} {entries : List (ι × α)} {i : ι}

/-- An entry that counts is carried out after the ones before it. -/
theorem replay_concat_live {u : σ}
    (h : replay effect live s entries = some u) (hi : live i = true) :
    replay effect live s (entries ++ [(i, a)]) = effect u a := by
  rw [replay_append, h, Option.bind_some, replay_singleton, if_pos hi]

/-- An entry that does not count changes nothing. -/
theorem replay_concat_dead (hi : live i = false) :
    replay effect live s (entries ++ [(i, a)]) = replay effect live s entries := by
  have hlast : ∀ u, replay effect live u [(i, a)] = some u := by
    intro u
    rw [replay_singleton, hi]
    rfl
  rw [replay_append]
  simp only [hlast, Option.bind_fun_some]

/-- Only the owners of entries matter. -/
theorem replay_congr {live' : ι → Bool} (h : ∀ e ∈ entries, live e.1 = live' e.1) :
    replay effect live s entries = replay effect live' s entries := by
  unfold replay counted
  rw [List.filter_congr h]

end Journal
