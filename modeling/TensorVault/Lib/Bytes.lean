import Mathlib.Data.List.Basic
import Mathlib.Tactic.Ring

/-!
# Numbers and slices of byte strings

Numbers of a fixed width in little-endian order, and the part of a byte string between two
positions. A reader that looks up a number at a position of a file is followed with
`slice_append_of_le` and `slice_append_left`, which find the part a slice falls into, and
`value_le`.
-/

namespace Bytes

open List

/-! ## Numbers -/

/-- The low `k` bytes of a number, the lowest first. -/
def le : Nat → Nat → List UInt8
  | 0, _ => []
  | k + 1, n => UInt8.ofNat n :: le k (n / 256)

/-- The number with these bytes, the lowest first. -/
def value : List UInt8 → Nat
  | [] => 0
  | b :: bs => b.toNat + 256 * value bs

variable {k n : Nat}

@[simp] theorem length_le (n : Nat) : (le k n).length = k := by
  induction k generalizing n with
  | zero => rfl
  | succ k ih => rw [le, length_cons, ih]

/-- Reading a number gives what is left of it in `k` bytes. -/
theorem value_le : value (le k n) = n % 256 ^ k := by
  induction k generalizing n with
  | zero => rw [le, value, Nat.pow_zero, Nat.mod_one]
  | succ k ih =>
    rw [le, value, ih, UInt8.toNat_ofNat', Nat.pow_succ 256, Nat.mul_comm (256 ^ k), Nat.mod_mul]

theorem value_le_of_lt (h : n < 256 ^ k) : value (le k n) = n := by
  rw [value_le, Nat.mod_eq_of_lt h]

/-- The bits of a number are those of its bytes. -/
theorem testBit_value {bs : List UInt8} :
    (value bs).testBit n = (bs.getD (n / 8) 0).toNat.testBit (n % 8) := by
  induction bs generalizing n with
  | nil => simp [value]
  | cons b bs ih =>
    have hb : b.toNat < 2 ^ 8 := b.toNat_lt
    rw [value, Nat.add_comm, show 256 = 2 ^ 8 from rfl, Nat.testBit_two_pow_mul_add _ hb]
    split
    · next hlt => rw [Nat.div_eq_of_lt hlt, Nat.mod_eq_of_lt hlt]; rfl
    · next hge =>
      obtain ⟨m, rfl⟩ : ∃ m, n = m + 8 := ⟨n - 8, by omega⟩
      rw [Nat.add_sub_cancel, ih, Nat.add_div_right m (by decide), Nat.add_mod_right]
      rfl

/-! ## Slices -/

/-- The `n` bytes from position `i` on. -/
def slice {α : Type} (bs : List α) (i n : Nat) : List α := (bs.drop i).take n

section Slice

variable {n i : Nat} {α : Type} {bs as : List α} {β : Type} {f : β → List α} {xs : List β}

@[simp] theorem length_slice (h : i + n ≤ bs.length) : (slice bs i n).length = n := by
  rw [slice, length_take, length_drop]
  omega

/-- A slice that starts behind a part is one of the rest. -/
theorem slice_append_of_le (h : as.length ≤ i) :
    slice (as ++ bs) i n = slice bs (i - as.length) n := by
  rw [slice, slice, drop_append, drop_of_length_le h, nil_append]

/-- A slice that ends within a part is one of it. -/
theorem slice_append_left (h : i + n ≤ as.length) : slice (as ++ bs) i n = slice as i n := by
  rw [slice, slice, drop_append_of_le_length (by omega), take_append_of_le_length]
  rw [length_drop]
  omega

theorem slice_all (h : bs.length = n) : slice bs 0 n = bs := by
  rw [slice, drop_zero, take_of_length_le (Nat.le_of_eq h)]

theorem getElem?_slice {j : Nat} (h : j < n) : (slice bs i n)[j]? = bs[i + j]? := by
  rw [slice, getElem?_take_of_lt h, getElem?_drop]

/-- A slice of a slice. -/
theorem slice_slice {j : Nat} (h : j + k ≤ n) : slice (slice bs i n) j k = slice bs (i + j) k := by
  rw [slice, slice, slice, drop_take, drop_drop, take_take, Nat.min_eq_left (by omega)]

/-- The parts of a string of equally long parts. -/
theorem slice_flatMap (hf : ∀ x, (f x).length = n)
    (hi : i < xs.length) : slice (xs.flatMap f) (i * n) n = f xs[i] := by
  induction xs generalizing i with
  | nil => exact absurd hi (Nat.not_lt_zero i)
  | cons x xs ih =>
    rw [flatMap_cons]
    cases i with
    | zero =>
      rw [Nat.zero_mul, slice_append_left (by rw [hf]; omega), slice_all (hf x)]
      rfl
    | succ i =>
      rw [slice_append_of_le (by rw [hf, Nat.succ_mul]; omega), hf, Nat.succ_mul,
        Nat.add_sub_cancel, ih (Nat.lt_of_succ_lt_succ hi)]
      rfl

theorem length_flatMap_const (hf : ∀ x, (f x).length = n) :
    (xs.flatMap f).length = xs.length * n := by
  induction xs with
  | nil => simp
  | cons x xs ih => rw [flatMap_cons, length_append, hf, ih, length_cons]; ring

end Slice

end Bytes
