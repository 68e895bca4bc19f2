import Mathlib.Data.List.Infix

/-!
# Lexers that take one token at a time

A lexer reads the token at the head of its input, or skips the head. `loop` runs it to the end of
the input; `Lexes` is the same as a relation, without fuel. The main rule is `Lexes.append`: two
texts are read one after the other, provided that no token of the first reaches into the second.
-/

namespace Lexer

open List

variable {α τ ε : Type}

/-- One turn of a lexer. -/
abbrev Next (α τ ε : Type) : Type := α → List α → Except ε (Option τ × List α)

variable (next : Next α τ ε)

/-- The tokens of a text. -/
inductive Lexes : List α → List τ → Prop
  | nil : Lexes [] []
  | step {c : α} {rest rest' : List α} {tok : Option τ} {toks : List τ}
    (hnext : next c rest = .ok (tok, rest')) (hrest : Lexes rest' toks) :
    Lexes (c :: rest) (tok.toList ++ toks)

/-- What is left is an end of what there was. -/
def Shrinks : Prop :=
  ∀ {c : α} {rest rest' : List α} {tok : Option τ}, next c rest = .ok (tok, rest') → rest' <:+ rest

/-- The tokens of a text, closed by `last`. -/
def loop (last : τ) : Nat → List α → Except ε (List τ)
  | _, [] => .ok [last]
  | 0, _ :: _ => .ok [last]
  | fuel + 1, c :: rest =>
    match next c rest with
    | .error e => .error e
    | .ok (tok, rest') =>
      match loop last fuel rest' with
      | .error e => .error e
      | .ok toks => .ok (tok.toList ++ toks)

variable {next} {cs : List α} {J : List α → List α → Prop} {a b : List α}

theorem Lexes.unique {toks toks' : List τ} (h : Lexes next cs toks)
    (h' : Lexes next cs toks') : toks = toks' := by
  induction h generalizing toks' with
  | nil =>
    cases h'
    rfl
  | step hnext _ ih =>
    cases h' with
    | step hnext' hrest' =>
      cases hnext.symm.trans hnext'
      rw [ih hrest']

/-- With enough fuel the loop computes the relation. -/
theorem loop_eq_ok_iff (hshrinks : Shrinks next) {last : τ} {fuel : Nat}
    (hfuel : cs.length ≤ fuel) {toks : List τ} :
    loop next last fuel cs = .ok toks ↔ ∃ ts, Lexes next cs ts ∧ toks = ts ++ [last] := by
  induction fuel generalizing cs toks with
  | zero =>
    obtain rfl := length_eq_zero_iff.mp (Nat.le_zero.mp hfuel)
    constructor
    · intro h
      exact ⟨[], .nil, (Except.ok.inj h).symm⟩
    · rintro ⟨ts, hts, rfl⟩
      cases hts
      rfl
  | succ fuel ih =>
    cases cs with
    | nil =>
      constructor
      · intro h
        exact ⟨[], .nil, (Except.ok.inj h).symm⟩
      · rintro ⟨ts, hts, rfl⟩
        cases hts
        rfl
    | cons c rest =>
      rw [loop]
      rcases hnext : next c rest with e | ⟨tok, rest'⟩
      · refine iff_of_false (fun h => by cases h) ?_
        rintro ⟨ts, hts, -⟩
        cases hts with
        | step hnext' _ => rw [hnext] at hnext'; cases hnext'
      · have hlength : rest'.length ≤ fuel := by
          have hle := (hshrinks hnext).length_le
          rw [length_cons] at hfuel
          omega
        have hih : ∀ toks, loop next last fuel rest' = .ok toks ↔
            ∃ ts, Lexes next rest' ts ∧ toks = ts ++ [last] := fun _ => ih hlength
        simp only
        constructor
        · intro h
          rcases hloop : loop next last fuel rest' with e | toks'
          · rw [hloop] at h
            cases h
          · rw [hloop] at h
            obtain ⟨ts, hts, rfl⟩ := (hih _).mp hloop
            exact ⟨tok.toList ++ ts, .step hnext hts,
              (Except.ok.inj h).symm.trans (append_assoc _ _ _).symm⟩
        · rintro ⟨ts, hts, rfl⟩
          cases hts with
          | step hnext' hrest =>
            cases hnext.symm.trans hnext'
            rw [(hih _).mpr ⟨_, hrest, rfl⟩]
            simp only [append_assoc]

/-- Texts are read one after the other where they may be joined. -/
theorem Lexes.append (hshrinks : Shrinks next) (hsuffix : ∀ {a a' b}, a' <:+ a → J a b → J a' b)
    (hjoin : ∀ {c rest tok rest' b}, next c rest = .ok (tok, rest') → J (c :: rest) b →
      next c (rest ++ b) = .ok (tok, rest' ++ b)) {ta tb : List τ} (ha : Lexes next a ta)
    (hb : Lexes next b tb) (h : J a b) : Lexes next (a ++ b) (ta ++ tb) := by
  induction ha with
  | nil => exact hb
  | step hnext _ ih =>
    rw [append_assoc]
    refine .step (hjoin hnext h) (ih (hsuffix ?_ h))
    exact (hshrinks hnext).trans (suffix_cons _ _)

/-- What stands behind a text that is read is read by itself. -/
theorem Lexes.of_append (hshrinks : Shrinks next) (hsuffix : ∀ {a a' b}, a' <:+ a → J a b → J a' b)
    (hjoin : ∀ {c rest tok rest' b}, next c rest = .ok (tok, rest') → J (c :: rest) b →
      next c (rest ++ b) = .ok (tok, rest' ++ b)) {ta tab : List τ} (ha : Lexes next a ta)
    (hab : Lexes next (a ++ b) tab) (h : J a b) : ∃ tb, Lexes next b tb := by
  induction ha generalizing tab with
  | nil => exact ⟨tab, hab⟩
  | step hnext _ ih =>
    cases hab with
    | step hnext' hrest' =>
      cases (hjoin hnext h).symm.trans hnext'
      exact ih hrest' (hsuffix ((hshrinks hnext).trans (suffix_cons _ _)) h)

end Lexer
