import TensorVault.Basic
import TensorVault.Lib.Bytes

/-!
# Pages

A page is a header of eight `u64` fields and 4032 bytes of cells. On disk it is the bytes of the
fields, in the order of a little-endian machine, followed by the cells. What checksum and parity of
the header are for is in `Storage.Integrity`.
-/

namespace TensorVault

open Bytes List

/-- `u64::from_le_bytes` of the eight bytes at a position. -/
def u64At (bs : List UInt8) (i : Nat) : UInt64 := UInt64.ofNat (value (slice bs i 8))

/-- `u64::to_le_bytes`. -/
def u64Bytes (n : UInt64) : List UInt8 := le 8 n.toNat

@[simp] theorem length_u64Bytes (n : UInt64) : (u64Bytes n).length = 8 := length_le n.toNat

theorem ofNat_value_u64Bytes (n : UInt64) : UInt64.ofNat (value (u64Bytes n)) = n := by
  have hlt : n.toNat < 256 ^ 8 := n.toNat_lt
  rw [u64Bytes, value_le_of_lt hlt, UInt64.ofNat_toNat]

/-! ## Header and cells -/

structure PageHeader where
  pageType : UInt64
  tierHint : UInt64
  homogeneity : UInt64
  rowCount : UInt64
  checksum : UInt64
  predecessor : UInt64
  successor : UInt64
  parity : UInt64
  deriving DecidableEq, Repr

namespace PageHeader

def fields (h : PageHeader) : List UInt64 :=
  [h.pageType, h.tierHint, h.homogeneity, h.rowCount, h.checksum, h.predecessor, h.successor,
    h.parity]

/-- `bytemuck::bytes_of`. -/
def bytes (h : PageHeader) : List UInt8 := h.fields.flatMap u64Bytes

/-- The header at the start of some bytes. -/
def ofBytes (bs : List UInt8) : PageHeader where
  pageType := u64At bs 0
  tierHint := u64At bs 8
  homogeneity := u64At bs 16
  rowCount := u64At bs 24
  checksum := u64At bs 32
  predecessor := u64At bs 40
  successor := u64At bs 48
  parity := u64At bs 56

@[simp] theorem length_bytes (h : PageHeader) : h.bytes.length = 64 :=
  length_flatMap_const length_u64Bytes

theorem u64At_bytes (h : PageHeader) {i : Nat} (hi : i < h.fields.length) :
    u64At h.bytes (i * 8) = h.fields[i] := by
  rw [u64At, bytes, slice_flatMap length_u64Bytes hi, ofNat_value_u64Bytes]

theorem ofBytes_bytes (h : PageHeader) : ofBytes h.bytes = h := by
  have hfield : ∀ i (hi : i < 8), u64At h.bytes (i * 8) = h.fields[i] := fun i hi =>
    h.u64At_bytes hi
  simp only [ofBytes]
  rw [hfield 0 (by decide), hfield 1 (by decide), hfield 2 (by decide), hfield 3 (by decide),
    hfield 4 (by decide), hfield 5 (by decide), hfield 6 (by decide), hfield 7 (by decide)]
  rfl

end PageHeader

structure Page where
  header : PageHeader
  cells : List UInt8
  length_cells : cells.length = 4032
  deriving DecidableEq, Repr

namespace Page

theorem ext {p q : Page} (hheader : p.header = q.header) (hcells : p.cells = q.cells) : p = q := by
  obtain ⟨_, _, _⟩ := p
  obtain ⟨_, _, _⟩ := q
  cases hheader
  cases hcells
  rfl

/-- `Page::new`. -/
def new : Page where
  header := ⟨0, 0, 0, 0, 0, 0, 0, 0⟩
  cells := List.replicate 4032 0
  length_cells := length_replicate

/-- `get_cell`, for an index below 504. -/
def cell (p : Page) (index : Nat) : UInt64 := u64At p.cells (index * 8)

/-- `to_bytes`. -/
def bytes (p : Page) : List UInt8 := p.header.bytes ++ p.cells

@[simp] theorem length_bytes (p : Page) : p.bytes.length = 4096 := by
  rw [bytes, length_append, PageHeader.length_bytes, p.length_cells]

/-- `from_bytes` of bytes at an address. The header is read in place, which panics unless the
address is that of a `u64`. -/
def fromBytes (address : Nat) (bs : List UInt8) : Outcome Page :=
  if h : bs.length < 4096 then
    .err (.corruption ("page too small: " ++ toString bs.length ++ " bytes"))
  else if address % 8 ≠ 0 then .panic
  else .ok
    { header := .ofBytes (bs.take 64)
      cells := slice bs 64 4032
      length_cells := length_slice (by omega) }

theorem fromBytes_bytes {p : Page} {address : Nat} (h : 8 ∣ address) :
    fromBytes address p.bytes = .ok p := by
  rw [fromBytes, dif_neg (by simp), if_neg (by omega)]
  refine congrArg Outcome.ok (ext ?_ ?_)
  · show PageHeader.ofBytes (p.bytes.take 64) = _
    rw [bytes, take_left' p.header.length_bytes, PageHeader.ofBytes_bytes]
  · show slice p.bytes 64 4032 = _
    rw [bytes, slice_append_of_le (by simp), PageHeader.length_bytes, slice_all p.length_cells]

end Page

end TensorVault
