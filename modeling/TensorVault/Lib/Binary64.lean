import Mathlib.Data.Nat.Log
import Mathlib.Tactic.Ring

/-!
# Bit patterns of doubles

A double is its 64 bits. The comparisons of IEEE 754 read the bits as sign and magnitude, so they
need no arithmetic: `rank` orders the numbers, `totalRank` also the two zeros and the NaNs.

`ofNat` and `ofInt` are the conversions from integers, rounded to the nearest double and to the
even one of two.
-/

namespace Binary64

/-! ## Comparing -/

/-- The bits without the sign. -/
def magnitude (b : UInt64) : Nat := b.toNat % 2 ^ 63

def isNegative (b : UInt64) : Bool := decide (2 ^ 63 ≤ b.toNat)

def isNaN (b : UInt64) : Bool := decide (2047 * 2 ^ 52 < magnitude b)

/-- Numbers are ordered as their ranks are. -/
def rank (b : UInt64) : Int := if isNegative b then -(magnitude b : Int) else magnitude b

def eq (a b : UInt64) : Bool := !isNaN a && !isNaN b && decide (rank a = rank b)

def lt (a b : UInt64) : Bool := !isNaN a && !isNaN b && decide (rank a < rank b)

def isZero (b : UInt64) : Bool := eq b 0

/-- The order of all bit patterns, with -0 before 0 and the NaNs outside. -/
def totalRank (b : UInt64) : Int :=
  if isNegative b then -(magnitude b : Int) - 1 else magnitude b

def neg (b : UInt64) : UInt64 := b ^^^ UInt64.ofNat (2 ^ 63)

/-- The smaller of two numbers; a NaN gives way to the other. -/
def min (a b : UInt64) : UInt64 :=
  if isNaN a then b else if isNaN b then a else if lt b a then b else a

/-- The larger of two numbers; a NaN gives way to the other. -/
def max (a b : UInt64) : UInt64 :=
  if isNaN a then b else if isNaN b then a else if lt a b then b else a

/-- The number without its fraction. -/
def trunc (b : UInt64) : Int :=
  let e := magnitude b / 2 ^ 52
  let m := magnitude b % 2 ^ 52 + 2 ^ 52
  let n : Nat := if e < 1075 then m / 2 ^ (1075 - e) else m * 2 ^ (e - 1075)
  if isNaN b then 0 else if isNegative b then -(n : Int) else n

/-- A normal number: neither zero nor subnormal, infinite or a NaN. -/
def isNormal (b : UInt64) : Bool :=
  decide (2 ^ 52 ≤ magnitude b) && decide (magnitude b < 2047 * 2 ^ 52)

def abs (b : UInt64) : UInt64 := UInt64.ofNat (magnitude b)

/-! ## Integers -/

/-- The integer nearest to `n / 2 ^ s`, the even one of two. -/
def shiftRound (n s : Nat) : Nat :=
  if 2 ^ s < 2 * (n % 2 ^ s) ∨ (2 * (n % 2 ^ s) = 2 ^ s ∧ n / 2 ^ s % 2 = 1) then n / 2 ^ s + 1
  else n / 2 ^ s

/-- The significand of a positive integer, with its leading bit. -/
def significand (n : Nat) : Nat :=
  if n.log2 ≤ 52 then n * 2 ^ (52 - n.log2) else shiftRound n (n.log2 - 52)

/-- The bits of the nearest double. A significand that rounds up to the next power of two carries
into the exponent. -/
def natBits (n : Nat) : Nat := if n = 0 then 0 else (n.log2 + 1022) * 2 ^ 52 + significand n

def ofNat (n : Nat) : UInt64 := UInt64.ofNat (natBits n)

def ofInt (n : Int) : UInt64 := if n < 0 then neg (ofNat n.natAbs) else ofNat n.natAbs

end Binary64
