import Mathlib.Algebra.Ring.Nat
import Mathlib.Logic.Function.Iterate
import Mathlib.Data.List.Basic

/-!
# Shift registers with feedback

A register that shifts its low bit out and adds the feedback where that bit was set is linear in
exclusive or. So what a flipped bit of the input adds only depends on how many shifts follow it
(`foldl_feed_flipAt`), and two flipped bits cancel exactly if the register, started at 1, comes back
to 1 in the shifts between them.
-/

namespace ShiftRegister

open List Function

variable {k w : Nat} (feedback : BitVec w) {a b c : BitVec w} {m n : Nat}

/-- One shift. -/
def shift (c : BitVec w) : BitVec w := (c >>> 1) ^^^ (if c.getLsbD 0 then feedback else 0#w)

/-- What is left of a 1 after `n` shifts. -/
def trace (n : Nat) : BitVec w := (shift feedback)^[n] 1#w

theorem shift_xor : shift feedback (a ^^^ b) = shift feedback a ^^^ shift feedback b := by
  unfold shift
  rw [BitVec.ushiftRight_xor_distrib, BitVec.getLsbD_xor]
  cases a.getLsbD 0 <;> cases b.getLsbD 0 <;> ext i hi <;> simp [Bool.xor_left_comm, Bool.xor_comm]

theorem iterate_shift_xor {n : Nat} :
    (shift feedback)^[n] (a ^^^ b) = (shift feedback)^[n] a ^^^ (shift feedback)^[n] b := by
  induction n generalizing a b with
  | zero => rfl
  | succ n ih => rw [iterate_succ_apply, shift_xor, ih]; rfl

theorem getLsbD_shift {i : Nat} :
    (shift feedback c).getLsbD i =
      (c.getLsbD (1 + i) ^^ (c.getLsbD 0 && feedback.getLsbD i)) := by
  unfold shift
  cases c.getLsbD 0 <;> simp

/-- The top bit of the feedback shows whether a bit was shifted out. -/
theorem eq_zero_of_shift {feedback : BitVec w} (h : feedback.msb = true)
    (hc : shift feedback c = 0#w) : c = 0#w := by
  have hbit : ∀ i, (c.getLsbD (1 + i) ^^ (c.getLsbD 0 && feedback.getLsbD i)) = false := fun i => by
    rw [← getLsbD_shift, hc, BitVec.getLsbD_zero]
  have hlow : c.getLsbD 0 = false := by
    rw [BitVec.msb_eq_getLsbD_last] at h
    have htop := hbit (w - 1)
    rwa [BitVec.getLsbD_of_ge c _ (by omega), h, Bool.and_true, Bool.false_xor] at htop
  refine BitVec.eq_of_getLsbD_eq fun i _ => ?_
  rw [BitVec.getLsbD_zero]
  cases i with
  | zero => exact hlow
  | succ i => simpa [hlow, Nat.add_comm] using hbit i

/-- Two registers that agree after a shift agreed before it. -/
theorem shift_injective {feedback : BitVec w} (h : feedback.msb = true) :
    Function.Injective (shift feedback) := by
  intro a b hab
  refine BitVec.xor_eq_zero_iff.mp (eq_zero_of_shift h ?_)
  rw [shift_xor, hab, BitVec.xor_self]

/-- A single bit moves down to the low end. -/
theorem iterate_shift_twoPow (hk : k < w) : (shift feedback)^[k] (BitVec.twoPow w k) = 1#w := by
  induction k with
  | zero => exact BitVec.twoPow_zero
  | succ k ih =>
    have hstep : shift feedback (BitVec.twoPow w (k + 1)) = BitVec.twoPow w k := by
      refine BitVec.eq_of_getLsbD_eq fun i _ => ?_
      rw [getLsbD_shift]
      simp only [BitVec.getLsbD_twoPow]
      rw [show decide (k + 1 = 1 + i) = decide (k = i) by congr 1; exact propext (by omega)]
      simp [hk, Nat.lt_of_succ_lt hk]
    rw [iterate_succ_apply, hstep, ih (Nat.lt_of_succ_lt hk)]

/-- The trace does not vanish. -/
theorem trace_ne_zero {feedback : BitVec w} (h : feedback.msb = true) (n : Nat) :
    trace feedback n ≠ 0#w := by
  have hw : 0 < w := by
    cases w with
    | zero => rw [BitVec.eq_nil feedback] at h; cases h
    | succ w => exact Nat.succ_pos w
  induction n with
  | zero =>
    intro hone
    have := congrArg (BitVec.getLsbD · 0) hone
    simp [trace, hw] at this
  | succ n ih =>
    intro hzero
    rw [trace, iterate_succ_apply'] at hzero
    exact ih (eq_zero_of_shift h hzero)

/-- Equal traces differ by a return to 1. -/
theorem trace_sub_eq_one {feedback : BitVec w} (h : feedback.msb = true) (hle : m ≤ n)
    (heq : trace feedback n = trace feedback m) : trace feedback (n - m) = 1#w := by
  refine (shift_injective h).iterate m ?_
  rw [trace, ← iterate_add_apply, Nat.add_sub_cancel' hle]
  exact heq

/-! ## Running a register

Whether the register comes back to 1 is found by running it on numbers. The run is cut into blocks
to keep the recursion flat.
-/

/-- A shift, on numbers. -/
def shiftNat (feedback c : Nat) : Nat := (c >>> 1) ^^^ ((c &&& 1) * feedback)

/-- The register after `n` shifts, or 0 if it came back to 1. -/
def walk (feedback : Nat) : Nat → Nat → Nat
  | 0, c => c
  | n + 1, c =>
    if shiftNat feedback c = 1 then 0 else walk feedback n (shiftNat feedback c)

theorem toNat_shift : (shift feedback c).toNat = shiftNat feedback.toNat c.toNat := by
  have hlow : c.toNat &&& 1 = if c.getLsbD 0 then 1 else 0 := by
    rw [Nat.and_one_is_mod, BitVec.getLsbD, Nat.testBit_zero]
    rcases Nat.mod_two_eq_zero_or_one c.toNat with h | h <;> simp [h]
  rw [shift, shiftNat, hlow, BitVec.toNat_xor, BitVec.toNat_ushiftRight]
  cases c.getLsbD 0 <;> simp

theorem toNat_trace (hw : 0 < w) : (trace feedback n).toNat = (shiftNat feedback.toNat)^[n] 1 := by
  induction n with
  | zero => exact Nat.mod_eq_of_lt (Nat.one_lt_two_pow (Nat.ne_of_gt hw))
  | succ n ih =>
    rw [trace, iterate_succ_apply', toNat_shift, iterate_succ_apply', ← ih]
    rfl

/-- No return to 1 within `n` shifts. -/
def Avoids (feedback c n : Nat) : Prop := ∀ d, 0 < d → d ≤ n → (shiftNat feedback)^[d] c ≠ 1

theorem avoids_of_walk {feedback : Nat} :
    ∀ {n c : Nat}, walk feedback n c ≠ 0 →
      walk feedback n c = (shiftNat feedback)^[n] c ∧ Avoids feedback c n
  | 0, c, _ => ⟨rfl, fun d hpos hle => absurd hpos (by omega)⟩
  | n + 1, c, h => by
    rw [walk] at h ⊢
    split at h
    · exact absurd rfl h
    · next hone =>
      obtain ⟨heq, havoids⟩ := avoids_of_walk h
      rw [if_neg hone]
      refine ⟨heq, fun d hpos hle => ?_⟩
      obtain ⟨d, rfl⟩ : ∃ k, d = k + 1 := ⟨d - 1, by omega⟩
      rw [iterate_succ_apply]
      rcases Nat.eq_zero_or_pos d with rfl | hd
      · exact hone
      · exact havoids d hd (by omega)

theorem walk_zero {feedback : Nat} : walk feedback n 0 = 0 := by
  induction n with
  | zero => rfl
  | succ n ih =>
    have hzero : shiftNat feedback 0 = 0 := by simp [shiftNat]
    rw [walk, hzero, ih]
    rfl

theorem avoids_of_walks {feedback c : Nat} :
    ∀ {m : Nat}, (walk feedback k)^[m] c ≠ 0 →
      (walk feedback k)^[m] c = (shiftNat feedback)^[k * m] c ∧ Avoids feedback c (k * m)
  | 0, _ => ⟨rfl, fun d hpos hle => absurd hpos (by omega)⟩
  | m + 1, h => by
    rw [iterate_succ_apply'] at h ⊢
    have hbefore : (walk feedback k)^[m] c ≠ 0 := fun hzero => h (by rw [hzero, walk_zero])
    obtain ⟨heq, havoids⟩ := avoids_of_walks hbefore
    obtain ⟨hstep, hlast⟩ := avoids_of_walk h
    rw [hstep, heq, ← iterate_add_apply, Nat.mul_succ, Nat.add_comm (k * m)]
    refine ⟨rfl, fun d hpos hle => ?_⟩
    by_cases hd : d ≤ k * m
    · exact havoids d hpos hd
    · have := hlast (d - k * m) (by omega) (by omega)
      rwa [heq, ← iterate_add_apply, Nat.sub_add_cancel (by omega)] at this

/-- Traces over different numbers of shifts differ, as far as a run has not come back to 1. -/
theorem trace_ne_trace (hw : 0 < w) {feedback : BitVec w} (h : feedback.msb = true) {r : Nat}
    (hrun : (walk feedback.toNat k)^[r] 1 ≠ 0) (hlt : m < n) (hle : n - m ≤ k * r) :
    trace feedback n ≠ trace feedback m := by
  intro heq
  have hone := congrArg BitVec.toNat (trace_sub_eq_one h (Nat.le_of_lt hlt) heq)
  rw [toNat_trace feedback hw] at hone
  refine (avoids_of_walks hrun).2 (n - m) (by omega) hle ?_
  rw [hone]
  exact Nat.mod_eq_of_lt (Nat.one_lt_two_pow (Nat.ne_of_gt hw))

/-! ## Bytes -/

/-- A byte is added to the low end and shifted out. -/
def feed (c : BitVec w) (b : UInt8) : BitVec w := (shift feedback)^[8] (c ^^^ b.toBitVec.setWidth w)

variable {c d : BitVec w} {b : UInt8} {bs : List UInt8} {pos : Nat}

theorem feed_xor : feed feedback (c ^^^ d) b = feed feedback c b ^^^ (shift feedback)^[8] d := by
  rw [feed, BitVec.xor_assoc, BitVec.xor_comm d, ← BitVec.xor_assoc, iterate_shift_xor]
  rfl

theorem foldl_feed_xor :
    bs.foldl (feed feedback) (c ^^^ d) =
      bs.foldl (feed feedback) c ^^^ (shift feedback)^[8 * bs.length] d := by
  induction bs generalizing c d with
  | nil => rfl
  | cons b bs ih =>
    rw [foldl_cons, foldl_cons, feed_xor, ih, ← iterate_add_apply, length_cons, Nat.mul_succ]

/-- Flip a bit of a byte. -/
def flipBit (k : Nat) (b : UInt8) : UInt8 := b ^^^ (1 <<< UInt8.ofNat k)

/-- Flip a bit of a string of bytes. -/
def flipAt (bs : List UInt8) (pos : Nat) : List UInt8 := bs.modify (pos / 8) (flipBit (pos % 8))

@[simp] theorem length_flipAt : (flipAt bs pos).length = bs.length :=
  length_modify ..

theorem flipAt_flipAt : flipAt (flipAt bs pos) pos = bs := by
  have hbit : ∀ (k : Nat) (b : UInt8), flipBit k (flipBit k b) = b := fun k b => by
    rw [flipBit, flipBit, UInt8.xor_assoc, UInt8.xor_self, UInt8.xor_zero]
  refine ext_getElem? fun i => ?_
  simp only [flipAt, getElem?_modify]
  cases bs[i]? with
  | none => simp
  | some b => split <;> simp [hbit]

theorem toBitVec_one_shiftLeft (hk : k < 8) :
    (1 <<< UInt8.ofNat k : UInt8).toBitVec = BitVec.twoPow 8 k :=
  (by decide : ∀ k < 8, (1 <<< UInt8.ofNat k : UInt8).toBitVec = BitVec.twoPow 8 k) k hk

theorem setWidth_flipBit (hw : 8 ≤ w) (hk : k < 8) :
    (flipBit k b).toBitVec.setWidth w = b.toBitVec.setWidth w ^^^ BitVec.twoPow w k := by
  refine BitVec.eq_of_getLsbD_eq fun i hi => ?_
  rw [flipBit, UInt8.toBitVec_xor, toBitVec_one_shiftLeft hk]
  simp only [BitVec.getLsbD_setWidth, BitVec.getLsbD_xor, BitVec.getLsbD_twoPow, hi, hk,
    show k < w by omega, decide_true, Bool.true_and]

/-- The bit is the only one that changes. -/
theorem testBit_flipBit (hk : k < 8) :
    (flipBit k b).toNat.testBit m = (b.toNat.testBit m ^^ decide (k = m)) := by
  have hbit : (1 <<< UInt8.ofNat k : UInt8).toNat = 2 ^ k := by
    have := congrArg BitVec.toNat (toBitVec_one_shiftLeft hk)
    rw [BitVec.toNat_twoPow, Nat.mod_eq_of_lt (Nat.pow_lt_pow_right (by decide) hk)] at this
    exact this
  rw [flipBit, UInt8.toNat_xor, Nat.testBit_xor, hbit, Nat.testBit_two_pow]

theorem feed_flipBit (hw : 8 ≤ w) (hk : k < 8) :
    feed feedback c (flipBit k b) = feed feedback c b ^^^ trace feedback (8 - k) := by
  have hsplit : (shift feedback)^[8] (BitVec.twoPow w k) = trace feedback (8 - k) := by
    rw [show 8 = (8 - k) + k by omega, iterate_add_apply, iterate_shift_twoPow feedback (by omega)]
    simp [trace]
  rw [feed, setWidth_flipBit hw hk, ← BitVec.xor_assoc, iterate_shift_xor, hsplit]
  rfl

/-- What a flipped bit adds to the register: its trace over the shifts that follow. -/
theorem foldl_feed_flipAt (hw : 8 ≤ w) (c : BitVec w) (hpos : pos < 8 * bs.length) :
    (flipAt bs pos).foldl (feed feedback) c =
      bs.foldl (feed feedback) c ^^^ trace feedback (8 * bs.length - pos) := by
  induction bs generalizing c pos with
  | nil => exact absurd hpos (Nat.not_lt_zero pos)
  | cons b bs ih =>
    rw [length_cons, Nat.mul_succ] at hpos
    by_cases hfirst : pos < 8
    · rw [flipAt, Nat.div_eq_of_lt hfirst, Nat.mod_eq_of_lt hfirst, modify_zero_cons,
        foldl_cons, foldl_cons, feed_flipBit feedback hw hfirst, foldl_feed_xor, trace,
        ← iterate_add_apply, trace, length_cons]
      congr 3
      omega
    · obtain ⟨q, rfl⟩ : ∃ q, pos = q + 8 := ⟨pos - 8, by omega⟩
      have hcons : flipAt (b :: bs) (q + 8) = b :: flipAt bs q := by
        rw [flipAt, flipAt, Nat.add_div_right q (by decide), Nat.add_mod_right, modify_succ_cons]
      rw [hcons, foldl_cons, foldl_cons, ih _ (by omega), length_cons]
      congr 2
      omega

/-! ## Words -/

/-- The low `n` bits of a number are added and shifted out one after the other. -/
def feedBits : Nat → BitVec w → Nat → BitVec w
  | 0, c, _ => c
  | n + 1, c, v => feedBits n (shift feedback (c ^^^ BitVec.ofNat w (v % 2))) (v / 2)

/-- The bits above the low one only move down. -/
theorem shift_xor_ofNat (c : BitVec w) {v : Nat} (hv : v < 2 ^ w) :
    shift feedback (c ^^^ BitVec.ofNat w v) =
      shift feedback (c ^^^ BitVec.ofNat w (v % 2)) ^^^ BitVec.ofNat w (v / 2) := by
  rw [shift_xor, shift_xor, BitVec.xor_assoc]
  refine congrArg _ (BitVec.eq_of_getLsbD_eq fun i hi => ?_)
  have hlow : (v % 2).testBit (1 + i) = false := by rw [Nat.add_comm, Nat.testBit_succ]; simp
  have hhigh : (decide (1 + i < w) && v.testBit (1 + i)) = (v / 2).testBit i := by
    rw [Nat.add_comm, ← Nat.testBit_succ]
    by_cases h : i + 1 < w
    · rw [decide_eq_true h, Bool.true_and]
    · rw [decide_eq_false h, Nat.testBit_lt_two_pow
        (Nat.lt_of_lt_of_le hv (Nat.pow_le_pow_right (by decide) (Nat.le_of_not_lt h)))]
      rfl
  rw [BitVec.getLsbD_xor, getLsbD_shift, getLsbD_shift]
  simp only [BitVec.getLsbD_ofNat, Nat.testBit_zero, Nat.mod_mod, hlow, hhigh, hi, decide_true,
    Bool.true_and, Bool.and_false, Bool.false_xor, Bool.xor_comm]

theorem feedBits_add (hn : n ≤ w) (c : BitVec w) {v : Nat} (hv : v < 2 ^ n) (r : Nat) :
    feedBits feedback (m + n) c (v + 2 ^ n * r) =
      feedBits feedback m ((shift feedback)^[n] (c ^^^ BitVec.ofNat w v)) r := by
  induction n generalizing c v with
  | zero =>
    obtain rfl : v = 0 := by omega
    simp
  | succ n ih =>
    have hmod : (v + 2 ^ (n + 1) * r) % 2 = v % 2 := by
      rw [Nat.pow_succ', Nat.mul_assoc, Nat.add_mul_mod_self_left]
    have hdiv : (v + 2 ^ (n + 1) * r) / 2 = v / 2 + 2 ^ n * r := by
      rw [Nat.pow_succ', Nat.mul_assoc, Nat.add_mul_div_left _ _ (by decide)]
    have hlt : v < 2 ^ w := Nat.lt_of_lt_of_le hv (Nat.pow_le_pow_right (by decide) hn)
    rw [← Nat.add_assoc, feedBits, hmod, hdiv, ih (by omega) _ (by omega),
      ← shift_xor_ofNat feedback c hlt]
    rfl

end ShiftRegister
