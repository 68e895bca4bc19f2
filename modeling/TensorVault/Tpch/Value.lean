import TensorVault.Engine.Filter
import TensorVault.Lib.Binary64
import TensorVault.Lib.Utf8
import TensorVault.Tpch.Syntax
import TensorVault.Types.Datetime

/-!
# Values of the TPC-H interpreter

`Value2` of `engine/tpch.rs` and what the interpreter does with values: comparisons, arithmetic,
LIKE, EXTRACT, CAST and SUBSTR. Two integers are compared as doubles, so from `2 ^ 53` on different
integers can be equal; an integer and a text are equal if the integer is the hash of the text.

`Machine` collects what the interpreter takes from the host and the processor.
-/

namespace TensorVault.Tpch

open Text

/-- Lists of groups and their rows, as they are kept in a hash map. -/
abbrev Groups := List (UInt64 × List Nat)

structure Machine where
  host : Host
  /-- Arithmetic of doubles. -/
  add : UInt64 → UInt64 → UInt64
  sub : UInt64 → UInt64 → UInt64
  mul : UInt64 → UInt64 → UInt64
  div : UInt64 → UInt64 → UInt64
  powf : UInt64 → UInt64 → UInt64
  /-- The scalar product `dot_f64_bf16`, if the processor has the instructions. -/
  bf16Dot : Option (List UInt64 → List UInt64 → UInt64)
  /-- Year, month and day of a day number. -/
  ymd : Int → Int × Int × Int
  isoDate : Int → String
  /-- `JoinHashTable::hash`. -/
  joinHash : UInt64 → UInt64
  /-- `BloomFilter::hash_pair`. -/
  bloomHash : UInt64 → UInt64 × UInt64
  /-- `-256 * ln(1 - filled / 256)`, rounded. -/
  linearCount : Nat → UInt64
  /-- `xxh3_64` of bytes. -/
  xxh3Bytes : List UInt8 → UInt64
  /-- The order in which a hash map is iterated. -/
  iterate : Groups → Groups
  iterate_perm : ∀ groups, (iterate groups).Perm groups

/-- A machine for concrete runs: no floats, and keys are their own hashes. -/
def Machine.plain : Machine where
  host := Host.ascii
  add a _ := a
  sub a _ := a
  mul a _ := a
  div a _ := a
  powf a _ := a
  bf16Dot := none
  ymd _ := (1970, 1, 1)
  isoDate _ := ""
  joinHash := id
  bloomHash key := (key, 1)
  linearCount n := UInt64.ofNat n
  xxh3Bytes bytes := bytes.foldl (fun h b => h * 31 + UInt64.ofNat b.toNat) 7
  iterate := id
  iterate_perm _ := .refl _

/-! ## Integers of a fixed width -/

/-- The `i64` arithmetic of the release build, which wraps around. -/
def wrap64 (n : Int) : Int := signedOf (cellOfInt n)

/-- `as u32 as i32`. -/
def signed32 (cell : UInt64) : Int :=
  let n : Nat := cell.toNat % 2 ^ 32
  if n < 2 ^ 31 then n else n - 2 ^ 32

/-- A float `as i64`. -/
def truncI64 (bits : UInt64) : Int :=
  max (-(2 ^ 63)) (min (2 ^ 63 - 1) (Binary64.trunc bits))

/-- A float `as i32`. -/
def truncI32 (bits : UInt64) : Int :=
  max (-(2 ^ 31)) (min (2 ^ 31 - 1) (Binary64.trunc bits))

/-- A float `as u64`. -/
def truncU64 (bits : UInt64) : UInt64 :=
  UInt64.ofNat (min (2 ^ 64 - 1) (Binary64.trunc bits).toNat)

/-! ## Values -/

inductive Value2 where
  | int (n : Int)
  | float (bits : UInt64)
  | str (s : String)
  | date (d : Int)
  | null
  deriving DecidableEq, Repr

namespace Value2

def asF64 (H : Host) : Value2 → Option UInt64
  | int n => some (Binary64.ofInt n)
  | float bits => some bits
  | date d => some (Binary64.ofInt d)
  | null => none
  | str s => H.parseF64 s

def asI64 : Value2 → Option Int
  | int n => some n
  | float bits => some (truncI64 bits)
  | date d => some d
  | null => none
  | str s => parseI64 s

def asStr : Value2 → Option String
  | str s => some s
  | _ => none

def asU64 : Value2 → Option UInt64
  | int n => some (cellOfInt n)
  | float bits => some (truncU64 bits)
  | date d => some (cellOfInt d)
  | _ => none

def toU64 (H : Host) : Value2 → UInt64
  | int n => cellOfInt n
  | float bits => bits
  | date d => UInt64.ofNat (d % 2 ^ 32).toNat
  | null => 0
  | str s => H.xxh3 s

def ofBool (b : Bool) : Value2 := int (if b then 1 else 0)

def truthy : Value2 → Bool
  | int n => n != 0
  | float bits => !Binary64.isZero bits
  | _ => false

def isInt : Value2 → Bool
  | int _ => true
  | _ => false

/-! ### Comparisons -/

/-- A comparison of doubles, false if one of the values is none. -/
def compareF64 (H : Host) (test : UInt64 → UInt64 → Bool) (a b : Value2) : Bool :=
  match a.asF64 H, b.asF64 H with
  | some x, some y => test x y
  | _, _ => false

/-- `cmp_eq`. -/
def cmpEq (H : Host) : Value2 → Value2 → Bool
  | null, _ | _, null => false
  | str x, str y => x == y
  | int n, str s | str s, int n => cellOfInt n == H.xxh3 s
  | a, b => compareF64 H Binary64.eq a b

/-- `cmp_lt`. -/
def cmpLt (H : Host) : Value2 → Value2 → Bool
  | null, _ | _, null => false
  | str x, str y => decide (x < y)
  | a, b => compareF64 H Binary64.lt a b

/-- `cmp_le`. -/
def cmpLe (H : Host) (a b : Value2) : Bool := cmpLt H a b || cmpEq H a b

/-! ### Operators -/

/-- Unary minus. -/
def negate : Value2 → Value2
  | int n => int (wrap64 (-n))
  | float bits => float (Binary64.neg bits)
  | _ => null

/-- The arithmetic operators: doubles, unless both are integers and the operator is no division. -/
def arith (M : Machine) (op : BinOp2) (a b : Value2) : Value2 :=
  match a.asF64 M.host, b.asF64 M.host with
  | some x, some y =>
    match op, a, b with
    | .div, _, _ => if Binary64.isZero y then null else float (M.div x y)
    | .add, int i, int j => int (wrap64 (i + j))
    | .sub, int i, int j => int (wrap64 (i - j))
    | .mul, int i, int j => int (wrap64 (i * j))
    | .add, _, _ => float (M.add x y)
    | .sub, _, _ => float (M.sub x y)
    | _, _, _ => float (M.mul x y)
  | _, _ => null

/-- `binop`. -/
def binop (M : Machine) (op : BinOp2) (a b : Value2) : Value2 :=
  match op with
  | .add | .sub | .mul | .div => arith M op a b
  | .eq => ofBool (cmpEq M.host a b)
  | .ne => ofBool (!cmpEq M.host a b)
  | .lt => ofBool (cmpLt M.host a b)
  | .gt => ofBool (cmpLt M.host b a)
  | .le => ofBool (cmpLe M.host a b)
  | .ge => ofBool (cmpLe M.host b a)
  | .and => ofBool (a.truthy && b.truthy)
  | .or => ofBool (a.truthy || b.truthy)

end Value2

/-! ## LIKE -/

/-- The loop of `like` over bytes: positions in the text and in the pattern, and the positions to
go back to after the last `%`. -/
def likeLoop (s p : List UInt8) : Nat → Nat → Nat → Option (Nat × Nat) → Bool
  | 0, _, _, _ => false
  | fuel + 1, si, pi, star =>
    match s[si]? with
    | none => (p.drop pi).all (· == '%'.toUInt8)
    | some b =>
      if p[pi]? = some '_'.toUInt8 ∨ p[pi]? = some b then likeLoop s p fuel (si + 1) (pi + 1) star
      else if p[pi]? = some '%'.toUInt8 then likeLoop s p fuel si (pi + 1) (some (si, pi))
      else
        match star with
        | some (starS, starP) =>
          likeLoop s p fuel (starS + 1) (starP + 1) (some (starS + 1, starP))
        | none => false

/-- `like`. There are at most as many steps between two returns to a `%` as the pattern is long. -/
def like (text pattern : String) : Bool :=
  let s := Utf8.encode text.toList
  let p := Utf8.encode pattern.toList
  likeLoop s p ((s.length + 1) * (p.length + 1) + 1) 0 0 none

/-! ## Functions -/

/-- `extract`. -/
def extractField (M : Machine) (field : String) (v : Value2) : Value2 :=
  let days : Option Int := match v with
    | .date d => some d
    | .int n => some (signed32 (cellOfInt n))
    | .float bits => some (truncI32 bits)
    | _ => none
  match days with
  | none => .null
  | some d =>
    match M.host.toLowercase field with
    | "year" => .int (Datetime.daysSinceEpochToYear d)
    | "month" => .int (M.ymd d).2.1
    | "day" => .int (M.ymd d).2.2
    | _ => .int (M.ymd d).1

/-- `cast_value`. An integer becomes the float with its bits. -/
def castValue (M : Machine) (v : Value2) (targetType : String) : Value2 :=
  match M.host.toUppercase targetType with
  | "FLOAT" | "DOUBLE" | "REAL" | "DECIMAL" | "NUMERIC" =>
    match v with
    | .int n | .date n => .float (cellOfInt n)
    | .float bits => .float bits
    | .str s => .float ((M.host.parseF64 s).getD 0)
    | .null => .null
  | "INT" | "INTEGER" | "BIGINT" | "SMALLINT" | "TINYINT" =>
    match v with
    | .int n | .date n => .int n
    | .float bits => .int (truncI64 bits)
    | .str s => .int ((parseI64 s).getD 0)
    | .null => .null
  | "VARCHAR" | "NVARCHAR" | "TEXT" | "CHAR" =>
    match v with
    | .int n => .str (toString n)
    | .float bits => .str (M.host.showF64 bits)
    | .date d => .str (M.isoDate d)
    | .str s => .str s
    | .null => .null
  | _ => v

/-- `substr`, in bytes; `none` where the source cuts a character in two. -/
def substrValue (v start len : Value2) : Option Value2 :=
  match v.asStr with
  | none => some .null
  | some s =>
    let cs := s.toList
    let si := (max (start.asI64.getD 1) 1).toNat - 1
    -- a negative length is a huge `usize`, and adding to it wraps around
    let ei := min ((si + (cellOfInt (len.asI64.getD 0)).toNat) % 2 ^ 64) (byteLength cs)
    if byteLength cs ≤ si then some (.str "")
    else (sliceBytes si ei cs).map fun part => .str (String.ofList part)

end TensorVault.Tpch
