import Mathlib.Data.List.Basic
import Mathlib.Data.UInt

/-!
# A chained hash table with tags, and a Bloom filter

The build side of a hash join. A slot of the directory holds the number of the newest entry with
this slot and the union of the tags of all of them; each entry points to the one before it. A probe
reads the tags first and then follows the chain. The filter answers for keys that are not there.
-/

/-! ## The table -/

structure ChainTable.Entry where
  key : UInt64
  row : Nat
  next : Nat

/-- Entries are numbered from 1; the number 0 ends a chain. -/
structure ChainTable where
  slot : UInt64 → Nat
  tag : UInt64 → UInt16
  directory : Nat → UInt16 × Nat
  entries : List ChainTable.Entry

namespace ChainTable

def empty (slot : UInt64 → Nat) (tag : UInt64 → UInt16) : ChainTable :=
  { slot, tag, directory := fun _ => (0, 0), entries := [] }

/-- A new entry at the head of the chain of its slot. -/
def insert (T : ChainTable) (key : UInt64) (row : Nat) : ChainTable :=
  let s := T.slot key
  let head := T.directory s
  { T with
    entries := T.entries ++ [⟨key, row, head.2⟩]
    directory := fun s' =>
      if s' = s then (head.1 ||| T.tag key, T.entries.length + 1) else T.directory s' }

/-- The rows of a chain with the key. A chain leads to older entries, so it is no longer than the
number of its head. -/
def walk (entries : List Entry) (key : UInt64) : Nat → Nat → List Nat
  | 0, _ => []
  | _ + 1, 0 => []
  | fuel + 1, idx + 1 =>
    match entries[idx]? with
    | none => []
    | some e =>
      if e.key = key then e.row :: walk entries key fuel e.next else walk entries key fuel e.next

def probeAll (T : ChainTable) (key : UInt64) : List Nat :=
  let head := T.directory (T.slot key)
  if head.1 ≠ 0 ∧ head.1 &&& T.tag key = T.tag key then
    walk T.entries key (T.entries.length + 1) head.2
  else []

/-- The table of the keys, each with its position. -/
def ofKeys (slot : UInt64 → Nat) (tag : UInt64 → UInt16) (keys : List UInt64) : ChainTable :=
  keys.zipIdx.foldl (fun T p => T.insert p.1 p.2) (empty slot tag)

end ChainTable

/-! ## The filter -/

/-- The bits that are set. -/
structure BloomFilter where
  positions : UInt64 → List Nat
  bits : List Nat

namespace BloomFilter

def ofKeys (positions : UInt64 → List Nat) (keys : List UInt64) : BloomFilter :=
  { positions, bits := keys.flatMap positions }

def mightContain (F : BloomFilter) (key : UInt64) : Bool :=
  (F.positions key).all (F.bits.contains ·)

end BloomFilter
