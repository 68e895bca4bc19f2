import Mathlib.Algebra.BigOperators.Intervals
import Mathlib.Tactic.IntervalCases
import Mathlib.Tactic.Linarith

/-!
# Days and calendar dates

A date is stored as the number of days since 1 January 1970. The loader and the planner compute it
with the arithmetic of eras of 400 years that begin in March, and read the year back the same way
(`daysFromCivil_exact`).
-/

namespace TensorVault.Datetime

/-! ## The calendar -/

def isLeapYear (y : Int) : Bool := (y % 4 = 0 && y % 100 ≠ 0) || y % 400 = 0

def monthDays (y : Int) (m : Nat) : Nat :=
  if m = 2 then if isLeapYear y then 29 else 28
  else if m = 4 ∨ m = 6 ∨ m = 9 ∨ m = 11 then 30 else 31

structure Valid (y : Int) (m d : Nat) : Prop where
  month_pos : 1 ≤ m
  month_le : m ≤ 12
  day_pos : 1 ≤ d
  day_le : d ≤ monthDays y m

def daysBefore (y : Int) (m : Nat) : Nat := ∑ k ∈ Finset.Ico 1 m, monthDays y k

/-- The days from 1 January of the year 0 to 1 January of a year. -/
def newYear : Int → Int
  | .ofNat n => ∑ i ∈ Finset.range n, (daysBefore i 13 : Int)
  | .negSucc n => -∑ i ∈ Finset.range (n + 1), (daysBefore (.negSucc i) 13 : Int)

/-- The signed number of days from 1 January 1970. -/
def epochDay (y : Int) (m d : Nat) : Int := newYear y - newYear 1970 + daysBefore y m + d - 1

variable {y : Int} {m : Nat}

theorem daysBefore_eq (h : 1 ≤ m) (h' : m ≤ 13) :
    daysBefore y m = (367 * m - 362) / 12 -
      (if m ≤ 2 then 0 else if isLeapYear y then 1 else 2) := by
  interval_cases m <;> cases hy : isLeapYear y <;>
    simp [daysBefore, Finset.sum_Ico_succ_top, monthDays, hy]

theorem newYear_eq : newYear y = 365 * y + (y + 3) / 4 - (y + 99) / 100 + (y + 399) / 400 := by
  have hstep (z : Int) : 365 * (z + 1) + (z + 4) / 4 - (z + 100) / 100 + (z + 400) / 400 =
      365 * z + (z + 3) / 4 - (z + 99) / 100 + (z + 399) / 400 + daysBefore z 13 := by
    have h4 : (z + 4) / 4 = (z + 3) / 4 + if z % 4 = 0 then 1 else 0 := by split <;> omega
    have h100 : (z + 100) / 100 = (z + 99) / 100 + if z % 100 = 0 then 1 else 0 := by
      split <;> omega
    have h400 : (z + 400) / 400 = (z + 399) / 400 + if z % 400 = 0 then 1 else 0 := by
      split <;> omega
    rw [daysBefore_eq (by omega) (by omega), h4, h100, h400]
    simp only [isLeapYear, Bool.or_eq_true, Bool.and_eq_true, decide_eq_true_eq]
    split_ifs <;> omega
  cases y with
  | ofNat n =>
    rw [newYear, Int.ofNat_eq_natCast]
    induction n with
    | zero => rfl
    | succ n ih =>
      rw [Finset.sum_range_succ, ih]
      have := hstep n
      push_cast at this ⊢
      grind
  | negSucc n =>
    rw [newYear]
    induction n with
    | zero => decide
    | succ n ih =>
      rw [Finset.sum_range_succ, neg_add, ih]
      have := hstep (.negSucc (n + 1))
      grind

/-! ## The source's arithmetic -/

/-- A signed machine integer of `w` bits. -/
def wrap (w : Nat) (x : Int) : Int := x.bmod (2 ^ w)

def daysFromCivil (y : Int) (m d : Nat) : Int :=
  let y := if m ≤ 2 then wrap 32 (y - 1) else y
  let era := (if y ≥ 0 then y else wrap 32 (y - 399)).tdiv 400
  let yoe := (y - era * 400).toNat
  let doy := (153 * (if m > 2 then m - 3 else m + 9) + 2) / 5 + d - 1
  let doe := yoe * 365 + yoe / 4 - yoe / 100 + doy
  wrap 32 (era * 146097 + doe - 719468)

def dateToDaysQ4 (y : Int) (m d : Nat) : UInt64 := UInt64.ofInt (daysFromCivil y m d)

def daysSinceEpochToYear (d : Int) : Int :=
  let z := d + 719468
  let era := (if z ≥ 0 then z else z - 146096).tdiv 146097
  let doe := z - era * 146097
  let yoe := (doe - doe.tdiv 1460 + doe.tdiv 36524 - doe.tdiv 146096).tdiv 365
  let y := yoe + era * 400
  let doy := doe - (365 * yoe + yoe.tdiv 4 - yoe.tdiv 100)
  wrap 32 (if doy ≥ 306 then y + 1 else y)

theorem wrap_eq {w : Nat} {x : Int} (h : -2 ^ (w - 1) ≤ x) (h' : x < 2 ^ (w - 1)) (hw : 0 < w) :
    wrap w x = x := by
  obtain ⟨w, rfl⟩ := Nat.exists_eq_succ_of_ne_zero hw.ne'
  rw [wrap]
  simp only [Nat.succ_eq_add_one, Nat.add_sub_cancel] at h h'
  rw [Int.bmod_eq_of_le] <;> push_cast [pow_succ] <;> omega

/-- The days from 1 March of the year 0 to 1 March of a year. -/
def march (y : Int) : Int := 365 * y + y / 4 - y / 100 + y / 400

/-- The year that began in the last March. -/
def marchYear (y : Int) (m : Nat) : Int := if m ≤ 2 then y - 1 else y

/-- The day in that year, counted from 0. -/
def dayOfYear (m d : Nat) : Nat := (153 * (if m > 2 then m - 3 else m + 9) + 2) / 5 + d - 1

theorem epochDay_eq {d : Nat} (h : Valid y m d) :
    epochDay y m d = march (marchYear y m) + dayOfYear m d - 719468 := by
  obtain ⟨hm, hm', hd, -⟩ := h
  have hleap : newYear y + (if isLeapYear y then 1 else 0) = march y + 1 := by
    rw [newYear_eq, march]
    simp only [isLeapYear, Bool.or_eq_true, Bool.and_eq_true, decide_eq_true_eq]
    split_ifs <;> omega
  have hlast : newYear y = march (y - 1) + 366 := by
    rw [newYear_eq, march]
    omega
  have h1970 : newYear 1970 = 719528 := newYear_eq
  rw [epochDay, daysBefore_eq hm (by omega), dayOfYear, marchYear, h1970]
  cases hy : isLeapYear y <;> rw [hy] at hleap <;> interval_cases m <;> simp at hleap ⊢ <;> omega

theorem march_eq (y : Int) :
    march y = y / 400 * 146097 + (y % 400 * 365 + y % 400 / 4 - y % 400 / 100) := by
  rw [march]
  omega

/-- Truncating division made to round down. -/
theorem tdiv_floor {z k : Int} (hk : 0 < k) :
    (if z ≥ 0 then z else z - (k - 1)).tdiv k = z / k := by
  split
  · rw [Int.tdiv_eq_ediv_of_nonneg (by omega)]
  · rw [← neg_sub, Int.neg_tdiv, Int.tdiv_eq_ediv_of_nonneg (by omega)]
    have := Int.emod_lt_of_pos z hk
    have := Int.emod_nonneg z hk.ne'
    have := Int.emod_add_mul_ediv z k
    rw [neg_eq_iff_eq_neg, Int.ediv_eq_iff_of_pos hk]
    constructor <;> linarith

/-- Day `a` of year `c` of an era, where only a leap year has day 365. -/
theorem yearOfEra_eq {c a n : Int} (hc : 0 ≤ c) (hc' : c < 400) (ha : 0 ≤ a) (ha' : a ≤ 365)
    (h : a = 365 → c % 4 = 3 ∧ (c % 100 ≠ 99 ∨ c = 399)) (hn : n = c * 365 + c / 4 - c / 100 + a) :
    (n - n / 1460 + n / 36524 - n / 146096) / 365 = c := by
  have hcentury : n / 36524 - n / 146096 = c / 100 := by
    by_cases hlast : c = 399 ∧ a = 365
    · omega
    · have h0 : n / 146096 = 0 := by omega
      have : c / 100 = 0 ∨ c / 100 = 1 ∨ c / 100 = 2 ∨ c / 100 = 3 := by omega
      rcases this with hq | hq | hq | hq <;> omega
  have hquad : n / 1460 = c / 4 ∧ a < 365 ∨ n / 1460 = c / 4 + 1 ∧ 0 < a := by
    by_cases h3 : c % 4 = 3 <;> omega
  omega

section

variable {y : Int} {m d : Nat} (h : Valid y m d)
include h

theorem dayOfYear_bounds : dayOfYear m d ≤ 365 ∧ (306 ≤ dayOfYear m d ↔ m ≤ 2) ∧
    (dayOfYear m d = 365 → isLeapYear y ∧ m = 2) := by
  obtain ⟨hm, hm', hd, hd'⟩ := h
  unfold monthDays at hd'
  unfold dayOfYear
  interval_cases m <;> simp at hd' ⊢ <;> (try split at hd') <;> simp_all <;> omega

theorem daysFromCivil_eq (hlow : -5000000 ≤ y) (hhigh : y ≤ 5000000) :
    daysFromCivil y m d = epochDay y m d := by
  obtain ⟨hdoy, -⟩ := dayOfYear_bounds h
  have hy : (if m ≤ 2 then wrap 32 (y - 1) else y) = marchYear y m := by
    rw [wrap_eq (by omega) (by omega) (by decide), marchYear]
  have hbound : -5000001 ≤ marchYear y m ∧ marchYear y m ≤ 5000000 := by
    unfold marchYear
    split <;> omega
  have hera :
      (if marchYear y m ≥ 0 then marchYear y m else wrap 32 (marchYear y m - 399)).tdiv 400 =
      marchYear y m / 400 := by
    rw [wrap_eq (by omega) (by omega) (by decide)]
    exact tdiv_floor (k := 400) (by decide)
  have hmarch := march_eq (marchYear y m)
  rw [epochDay_eq h, daysFromCivil]
  simp only [hy, hera]
  rw [← dayOfYear, wrap_eq (by omega) (by omega) (by decide)]
  omega

theorem daysSinceEpochToYear_eq (hlow : -5000000 ≤ y) (hhigh : y ≤ 5000000) :
    daysSinceEpochToYear (epochDay y m d) = y := by
  obtain ⟨hdoy, hmonth, hlast⟩ := dayOfYear_bounds h
  have hy : y = marchYear y m + if m ≤ 2 then 1 else 0 := by
    unfold marchYear
    split <;> omega
  have hleap : dayOfYear m d = 365 → marchYear y m % 400 % 4 = 3 ∧
      (marchYear y m % 400 % 100 ≠ 99 ∨ marchYear y m % 400 = 399) := by
    intro ha
    obtain ⟨hleap, rfl⟩ := hlast ha
    simp only [isLeapYear, Bool.or_eq_true, Bool.and_eq_true, decide_eq_true_eq] at hleap
    rw [marchYear, if_pos (by omega)]
    omega
  rw [epochDay_eq h, march_eq, daysSinceEpochToYear]
  generalize marchYear y m = c at hy hleap ⊢
  generalize dayOfYear m d = a at hdoy hmonth hlast hleap ⊢
  obtain ⟨n, hn⟩ : ∃ n, n = c % 400 * 365 + c % 400 / 4 - c % 400 / 100 + a := ⟨_, rfl⟩
  have hyoe := yearOfEra_eq (by omega) (by omega) (by omega) (by omega) (by omega) hn
  have hz : c / 400 * 146097 + (c % 400 * 365 + c % 400 / 4 - c % 400 / 100) + a - 719468 + 719468 =
      c / 400 * 146097 + n := by omega
  have hera : (if c / 400 * 146097 + n ≥ 0 then c / 400 * 146097 + n
      else c / 400 * 146097 + n - 146096).tdiv 146097 = c / 400 :=
    (tdiv_floor (k := 146097) (by decide)).trans (by omega)
  simp only [hz, hera, add_sub_cancel_left]
  simp (disch := omega) only [Int.tdiv_eq_ediv_of_nonneg, hyoe]
  have hyear : (if n - (365 * (c % 400) + c % 400 / 4 - c % 400 / 100) ≥ 306
      then c % 400 + c / 400 * 400 + 1 else c % 400 + c / 400 * 400) = y := by
    split_ifs at hy ⊢ <;> omega
  rw [hyear, wrap_eq (by omega) (by omega) (by decide)]

end

/-- Up to the year 5000000, the loader counts the days from 1 January 1970, and the year is read
back from their number. -/
theorem daysFromCivil_exact {y : Int} {m d : Nat} (h : Valid y m d) (hy : |y| ≤ 5000000) :
    daysFromCivil y m d = epochDay y m d ∧ daysSinceEpochToYear (daysFromCivil y m d) = y ∧
      dateToDaysQ4 y m d = UInt64.ofInt (epochDay y m d) := by
  obtain ⟨hlow, hhigh⟩ := abs_le.mp hy
  have hdays := daysFromCivil_eq h hlow hhigh
  rw [dateToDaysQ4, hdays]
  exact ⟨rfl, daysSinceEpochToYear_eq h hlow hhigh, rfl⟩

theorem daysFromCivil_leapDay : daysFromCivil (-4) 2 29 = epochDay (-4) 2 29 ∧
    daysSinceEpochToYear (daysFromCivil (-4) 2 29) = -4 ∧
      dateToDaysQ4 (-4) 2 29 = UInt64.ofInt (epochDay (-4) 2 29) :=
  daysFromCivil_exact ⟨by decide, by decide, by decide, by decide⟩ (by decide)

/-! ## Intervals -/

/-- The dates with years of four digits. -/
def calendarDate (y : Int) (m d : Nat) : Option (Int × Nat × Nat) :=
  if -9999 ≤ y ∧ y ≤ 9999 ∧ 1 ≤ m ∧ m ≤ 12 ∧ 1 ≤ d ∧ d ≤ monthDays y m then some (y, m, d) else none

/-- What is used of the `time` crate. -/
structure TimeCrate where
  fromCalendarDate : Int → Nat → Nat → Option (Int × Nat × Nat)
  previousDay : Int × Nat × Nat → Option (Int × Nat × Nat)
  fromCalendarDate_eq : ∀ y m d, fromCalendarDate y m d = calendarDate y m d
  previousDay_first : ∀ y m, previousDay (y, m, 1) =
    if 1 < m then some (y, m - 1, monthDays y (m - 1)) else calendarDate (y - 1) 12 31

def TimeCrate.standard : TimeCrate where
  fromCalendarDate := calendarDate
  previousDay
    | (y, m, d) => if 1 < d then some (y, m, d - 1)
      else if 1 < m then some (y, m - 1, monthDays y (m - 1)) else calendarDate (y - 1) 12 31
  fromCalendarDate_eq _ _ _ := rfl
  previousDay_first _ _ := rfl

variable (T : TimeCrate)

def daysInMonth (y : Int) (m : Nat) : Nat :=
  match T.fromCalendarDate y m 1 with
  | some first =>
    let nextFirst := ((if m = 12 then T.fromCalendarDate (y + 1) 1 1
      else T.fromCalendarDate y (m + 1) 1)).getD first
    ((T.previousDay nextFirst).getD first).2.2
  | none => 28

/-- A calendar date and an interval of months and microseconds; the result in microseconds. -/
def addInterval (y : Int) (m d : Nat) (months micros : Int) : Int :=
  let totalMonths := wrap 32 (y * 12 + (m - 1) + months)
  let ny := totalMonths / 12
  let nm := (totalMonths % 12).toNat + 1
  let nd := min d (daysInMonth T ny nm)
  let (y, m, d) := (T.fromCalendarDate ny nm nd).getD (y, m, d)
  wrap 64 (epochDay y m d * 86400000000 + micros)

theorem monthDays_bounds (y : Int) (m : Nat) : 28 ≤ monthDays y m ∧ monthDays y m ≤ 31 := by
  unfold monthDays
  split_ifs <;> omega

theorem calendarDate_first (hy : -9999 ≤ y) (hy' : y ≤ 9999) (hm : 1 ≤ m) (hm' : m ≤ 12) :
    calendarDate y m 1 = some (y, m, 1) :=
  if_pos ⟨hy, hy', hm, hm', le_rfl, by have := monthDays_bounds y m; omega⟩

/-- No date follows the last month, so its last day is taken from the month before. -/
theorem daysInMonth_eq (hy : 1 ≤ y) (hy' : y ≤ 9999) (hm : 1 ≤ m) (hm' : m ≤ 12) :
    daysInMonth T y m = if y = 9999 ∧ m = 12 then 30 else monthDays y m := by
  simp only [daysInMonth, T.fromCalendarDate_eq, calendarDate_first (by omega) hy' hm hm']
  by_cases hlast : m = 12
  · subst hlast
    by_cases hyear : y = 9999
    · subst hyear
      rw [show (if 12 = 12 then calendarDate (9999 + 1) 1 1 else calendarDate 9999 (12 + 1) 1).getD
        (9999, 12, 1) = (9999, 12, 1) by decide, T.previousDay_first]
      decide
    · simp only [if_true, calendarDate_first (show -9999 ≤ y + 1 by omega) (by omega) le_rfl
        (show 1 ≤ 12 by decide), Option.getD_some, T.previousDay_first, lt_irrefl, if_false]
      rw [calendarDate, if_pos (by simp [monthDays]; omega), if_neg (by simp [hyear])]
      rfl
  · simp only [hlast, and_false, if_false, calendarDate_first (show -9999 ≤ y by omega) hy'
      (show 1 ≤ m + 1 by omega) (by omega), Option.getD_some, T.previousDay_first,
        if_pos (show 1 < m + 1 by omega), Nat.add_sub_cancel]

/-- The same day of a later month, clamped to its last day, and the microseconds. -/
def later (y : Int) (m d : Nat) (months micros : Int) : Int :=
  let t := y * 12 + (m - 1) + months
  let nm := (t % 12).toNat + 1
  epochDay (t / 12) nm (min d (monthDays (t / 12) nm)) * 86400000000 + micros

/-- The day is right except in December 9999, which is given thirty days. -/
theorem addInterval_eq {d : Nat} (hd : 1 ≤ d ∧ d ≤ 31) {months micros t : Int}
    (ht : t = y * 12 + (m - 1) + months) (hlow : 12 ≤ t) (hhigh : t < 120000) :
    addInterval T y m d months micros =
      wrap 64 (later y m d months micros - if d = 31 ∧ t = 119999 then 86400000000 else 0) := by
  have hdays := daysInMonth_eq T (y := t / 12) (m := (t % 12).toNat + 1) (by omega) (by omega)
    (by omega) (by omega)
  obtain ⟨hpos, hle⟩ := monthDays_bounds (t / 12) ((t % 12).toNat + 1)
  have hdec : t = 119999 → monthDays (t / 12) ((t % 12).toNat + 1) = 31 := by
    rintro rfl
    rfl
  rw [addInterval, ← ht, wrap_eq (by omega) (by omega) (by decide)]
  simp only [hdays]
  rw [T.fromCalendarDate_eq, calendarDate, if_pos (by split <;> omega)]
  simp only [Option.getD_some, later, ← ht, epochDay]
  congr 1
  split_ifs <;> omega

/-- An interval is added exactly except where a 31st lands in December 9999. -/
theorem addInterval_exact_iff {y : Int} {m d : Nat} (h : Valid y m d) {months micros : Int}
    (ht : 12 ≤ y * 12 + (m - 1) + months) (ht' : y * 12 + (m - 1) + months < 120000)
    (hfit : -2 ^ 63 ≤ later y m d months micros ∧ later y m d months micros < 2 ^ 63) :
    addInterval T y m d months micros = later y m d months micros ↔
      ¬(d = 31 ∧ y * 12 + (m - 1) + months = 119999) := by
  have hd : d ≤ 31 := h.day_le.trans (monthDays_bounds y m).2
  rw [addInterval_eq T ⟨h.day_pos, hd⟩ rfl ht ht']
  split
  next hlast =>
    refine iff_of_false (fun heq => ?_) (not_not_intro hlast)
    rw [wrap, Int.bmod_def] at heq
    split at heq <;> omega
  next hlast => rw [sub_zero, wrap_eq hfit.1 hfit.2 (by decide)]; exact iff_of_true rfl hlast

theorem addInterval_february : addInterval .standard 2024 1 31 1 5 = later 2024 1 31 1 5 ↔
    ¬(31 = 31 ∧ (2024 * 12 + ((1 : Nat) - 1) + 1 : Int) = 119999) :=
  addInterval_exact_iff _ ⟨by decide, by decide, by decide, by decide⟩ (by decide) (by decide)
    (by simp only [later, epochDay, newYear_eq]; decide)

theorem addInterval_last_day :
    addInterval .standard 9999 12 31 0 0 = epochDay 9999 12 30 * 86400000000 ∧
    addInterval .standard 9999 12 31 0 0 ≠ later 9999 12 31 0 0 := by
  simp only [addInterval, later, epochDay, newYear_eq]
  decide

end TensorVault.Datetime
