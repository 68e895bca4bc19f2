import TensorVault.Text

/-!
# Errors, outcomes and the surrounding system

A call of the engine ends with a value, with an `Err`, or in a panic; `Outcome` keeps the last two
apart, because a panic ends the process. `Host` is what the engine takes from outside its own code:
the xxh3 hash, floating point text, case mapping, the clock and the file system.
-/

namespace TensorVault

open List

/-! ## Errors and outcomes -/

/-- The variants of `Error` that the modelled functions return, with their message text. -/
inductive Error where
  | corruption (msg : String)
  | notFound (what : String)
  | parse (msg : String)
  | io (msg : String)
  | other (msg : String)
  deriving DecidableEq, Repr

inductive Outcome (α : Type) where
  | ok (a : α)
  | err (e : Error)
  | panic
  deriving DecidableEq, Repr

namespace Outcome

variable {α β : Type} {f : α → Outcome β}

def bind (x : Outcome α) (f : α → Outcome β) : Outcome β :=
  match x with
  | .ok a => f a
  | .err e => .err e
  | .panic => .panic

instance : Monad Outcome where
  pure := .ok
  bind := Outcome.bind

/-- An index or an arithmetic step that panics when it has no result. -/
def ofOption (x : Option α) : Outcome α :=
  match x with
  | some a => .ok a
  | none => .panic

/-- The `?` operator on a `Result`. -/
def ofExcept (x : Except Error α) : Outcome α :=
  match x with
  | .ok a => .ok a
  | .error e => .err e

theorem bind_eq_ok {x : Outcome α} {b : β} : (x >>= f) = .ok b ↔ ∃ a, x = .ok a ∧ f a = .ok b := by
  cases x with
  | ok a => exact ⟨fun h => ⟨a, rfl, h⟩, fun ⟨_, h1, h2⟩ => by cases h1; exact h2⟩
  | err | panic => exact ⟨fun h => (by cases h), fun ⟨_, h1, _⟩ => by cases h1⟩

variable {a : α}

theorem ofOption_eq_ok {x : Option α} : ofOption x = .ok a ↔ x = some a := by
  cases x <;> simp [ofOption]

@[simp] theorem pure_eq_ok : (pure a : Outcome α) = .ok a := rfl

@[simp] theorem ok_bind : (Outcome.ok a >>= f) = f a := rfl

@[simp] theorem ofOption_some : ofOption (some a) = .ok a := rfl

@[simp] theorem ofExcept_ok : ofExcept (.ok a) = .ok a := rfl

instance : LawfulMonad Outcome :=
  LawfulMonad.mk' Outcome (fun x => by cases x <;> rfl) (fun _ _ => rfl)
    (fun x _ _ => by cases x <;> rfl)

end Outcome

section Lists

open List

variable {α β : Type} {xs : List α}

theorem mapM_eq_pure {m : Type → Type} [Monad m] [LawfulMonad m] {f : α → m β} {g : α → β}
    (h : ∀ x ∈ xs, f x = pure (g x)) : xs.mapM f = pure (xs.map g) := by
  induction xs with
  | nil => exact mapM_nil
  | cons x xs ih =>
    rw [mapM_cons, h x mem_cons_self, pure_bind, ih (forall_mem_cons.mp h).2, pure_bind, map_cons]

theorem of_mapM_eq_some {f : α → Option β} {ys : List β}
    (h : xs.mapM f = some ys) : (∀ x ∈ xs, ∃ y, f x = some y) ∧
      ∀ {γ : Type} {g : β → γ} {g' : α → γ}, (∀ x y, f x = some y → g y = g' x) →
        ys.map g = xs.map g' := by
  induction xs generalizing ys with
  | nil =>
    cases h
    exact ⟨fun _ hx => absurd hx not_mem_nil, fun _ => rfl⟩
  | cons x xs ih =>
    simp only [mapM_cons, Option.bind_eq_bind, Option.bind_eq_some_iff, Option.pure_def,
      Option.some.injEq] at h
    obtain ⟨y, hy, ys, hys, rfl⟩ := h
    obtain ⟨hall, hmap⟩ := ih hys
    exact ⟨forall_mem_cons.mpr ⟨⟨y, hy⟩, hall⟩, fun hg => by
      rw [map_cons, map_cons, hg x y hy, hmap hg]⟩

end Lists

/-! ## The host -/

structure Host where
  /-- `xxh3::xxh3_64` of the UTF-8 bytes of a text. -/
  xxh3 : String → UInt64
  /-- `str::parse::<f64>`, as the bit pattern of the float. -/
  parseF64 : String → Option UInt64
  /-- The `Display` text of the float with the given bits. -/
  showF64 : UInt64 → String
  /-- `str::to_lowercase`. -/
  toLowercase : String → String
  /-- `str::to_uppercase`. -/
  toUppercase : String → String
  /-- `char::is_alphanumeric`. -/
  isAlphanumeric : Char → Bool
  /-- The `Debug` text of a string, quotes and escapes included. -/
  debugStr : String → String
  /-- The `Debug` text of the float with the given bits. -/
  debugF64 : UInt64 → String
  /-- Milliseconds since the epoch at the given tick. -/
  now : Nat → UInt64
  /-- The time ANALYZE measures at the given tick, as the bits of the float and as its text. -/
  elapsed : Nat → UInt64 × String
  /-- The contents of a file at the given tick, if it can be read. -/
  readFile : Nat → String → Option String
  /-- Whether a file can be written at the given tick. -/
  canWrite : Nat → String → Bool

/-- ASCII texts are lowercased letter by letter. -/
def Host.LowersAscii (H : Host) : Prop :=
  ∀ s : String, (∀ c ∈ s.toList, c.toNat < 128) →
    H.toLowercase s = String.ofList (s.toList.map Char.toLower)

/-- `str::to_uppercase` maps character by character, and ASCII letters to ASCII letters. -/
def Host.UppersByCharacter (H : Host) : Prop :=
  ∃ f : Char → List Char, (∀ c, c.toNat < 128 → f c = [c.toUpper]) ∧
    ∀ s : String, (H.toUppercase s).toList = s.toList.flatMap f

/-- The case mappings of a text start with those of the ASCII letters it starts with. -/
structure Host.CasesAsciiStart (H : Host) : Prop where
  lower : ∀ pre rest : List Char, (∀ c ∈ pre, c.toNat < 128) →
    pre.map Char.toLower <+: (H.toLowercase (String.ofList (pre ++ rest))).toList
  upper : ∀ pre rest : List Char, (∀ c ∈ pre, c.toNat < 128) →
    pre.map Char.toUpper <+: (H.toUppercase (String.ofList (pre ++ rest))).toList

/-- Latin-1 texts are lowercased letter by letter, and their ASCII letters to ASCII letters. -/
def Host.LowersLatin1 (H : Host) : Prop :=
  ∃ f : Char → Char, (∀ c, c.toNat < 128 → f c = c.toLower) ∧
    ∀ s : String, (∀ c ∈ s.toList, c.toNat < 256) →
      H.toLowercase s = String.ofList (s.toList.map f)

/-- A host for concrete runs: ASCII case mapping, no floats and no files, the tick as the time,
and a polynomial hash in the place of xxh3. -/
def Host.ascii : Host where
  xxh3 s := s.toList.foldl (fun h c => h * 31 + UInt64.ofNat c.toNat) 7
  parseF64 _ := none
  showF64 _ := ""
  toLowercase s := String.ofList (s.toList.map Char.toLower)
  toUppercase s := String.ofList (s.toList.map Char.toUpper)
  isAlphanumeric := Char.isAlphanum
  debugStr s := "\"" ++ s ++ "\""
  debugF64 _ := ""
  now tick := UInt64.ofNat tick
  elapsed _ := (0, "0.000")
  readFile _ _ := none
  canWrite _ _ := true

theorem Host.casesAsciiStart_ascii : Host.ascii.CasesAsciiStart where
  lower pre rest _ := by
    rw [Host.ascii, String.toList_ofList, String.toList_ofList, map_append]
    exact prefix_append _ _
  upper pre rest _ := by
    rw [Host.ascii, String.toList_ofList, String.toList_ofList, map_append]
    exact prefix_append _ _

theorem Host.lowersAscii_ascii : Host.ascii.LowersAscii := fun _ _ => rfl

theorem Host.uppersByCharacter_ascii : Host.ascii.UppersByCharacter := by
  refine ⟨fun c => [c.toUpper], fun _ _ => rfl, fun s => ?_⟩
  rw [Host.ascii, String.toList_ofList, map_eq_flatMap]

end TensorVault
