import TensorVault.Storage.Page

/-!
# Sorted string tables

The reader takes the counts and offsets of the footer and of the index as they are.

* `readTable_writeTable` — pages written with non-decreasing first cells are read back, and
  `binary_search` finds the last page that starts at or before a key
* `total_iff` — on any other file the reader goes wrong exactly where an offset of the file makes a
  sum overflow or is no address of a header
-/

namespace TensorVault

open Bytes List

/-- The contents of a file. Its length is an `off_t`. -/
structure FileBytes where
  bytes : List UInt8
  length_lt : bytes.length < 2 ^ 63
  deriving DecidableEq, Repr

/-- `write_all` at the end of a file. -/
def FileBytes.writeAll (file : FileBytes) (bs : List UInt8) : Outcome FileBytes :=
  if h : file.bytes.length + bs.length < 2 ^ 63 then
    .ok { bytes := file.bytes ++ bs, length_lt := by rw [length_append]; exact h }
  else .err (.io "File too large (os error 27)")

theorem FileBytes.writeAll_isOk (file : FileBytes) (bs : List UInt8)
    (h : file.bytes.length + bs.length < 2 ^ 63) : ∃ file', file.writeAll bs = .ok file' :=
  ⟨_, dif_pos h⟩

/-- `write_all` at a position within a file. -/
def FileBytes.writeAt (file : FileBytes) (i : Nat) (bs : List UInt8) : Outcome FileBytes :=
  if h : (file.bytes.take i ++ bs ++ file.bytes.drop (i + bs.length)).length < 2 ^ 63 then
    .ok { bytes := file.bytes.take i ++ bs ++ file.bytes.drop (i + bs.length), length_lt := h }
  else .err (.io "File too large (os error 27)")

/-- The result of an operation on `u64` or `usize`. One that overflows counts as a panic, as it is
in a build with overflow checks. -/
def u64 (n : Nat) : Outcome Nat := if n < 2 ^ 64 then .ok n else .panic

namespace SsTable

/-- `TVSST001`. -/
def magic : List UInt8 := [0x54, 0x56, 0x53, 0x53, 0x54, 0x30, 0x30, 0x31]

/-! ## Writer -/

structure Writer where
  file : FileBytes
  pageCount : Nat
  pageOffsets : List Nat

namespace Writer

def create : Outcome Writer := do
  let file ← FileBytes.writeAll ⟨[], by decide⟩ magic
  let file ← file.writeAll (le 8 0)
  pure { file, pageCount := 0, pageOffsets := [] }

/-- `write_page`: the writer afterwards and the offset of the page. -/
def writePage (w : Writer) (page : Page) : Outcome (Writer × Nat) := do
  let size ← u64 (w.pageCount * 4096)
  let offset ← u64 (16 + size)
  let file ← w.file.writeAll page.header.bytes
  let file ← file.writeAll page.cells
  let pageCount ← u64 (w.pageCount + 1)
  pure ({ file, pageCount, pageOffsets := w.pageOffsets ++ [offset] }, offset)

/-- `finish`: the file and the number of bytes written. -/
def finish (w : Writer) : Outcome (FileBytes × Nat) := do
  let size ← u64 (w.pageCount * 4096)
  let indexOffset ← u64 (16 + size)
  let file ← w.file.writeAll (w.pageOffsets.flatMap (le 8))
  let file ← file.writeAll magic
  let file ← file.writeAll (le 8 w.pageCount)
  let file ← file.writeAll (le 8 indexOffset)
  -- the count in the header was a placeholder
  let file ← file.writeAt 8 (le 8 w.pageCount)
  let indexSize ← u64 (w.pageCount * 8)
  let indexEnd ← u64 (indexOffset + indexSize)
  let total ← u64 (indexEnd + 24)
  pure (file, total)

end Writer

/-- A table of these pages. -/
def writeTable (pages : List Page) : Outcome (FileBytes × Nat) := do
  let w ← Writer.create
  let w ← pages.foldlM (fun w page => Prod.fst <$> w.writePage page) w
  w.finish

/-! ## Reader -/

/-- A reader. `open` has checked that the index ends before the footer. -/
structure Reader where
  mmap : FileBytes
  pageCount : Nat
  indexOffset : Nat
  index_fits : indexOffset + pageCount * 8 + 24 ≤ mmap.bytes.length
  deriving DecidableEq, Repr

/-- The number of pages the footer has. -/
def footerCount (file : FileBytes) : Nat := value (slice file.bytes (file.bytes.length - 24 + 8) 8)

/-- The offset of the index the footer has. -/
def footerIndex (file : FileBytes) : Nat := value (slice file.bytes (file.bytes.length - 24 + 16) 8)

/-- `SsTableReader::open`. -/
def openFile (file : FileBytes) : Outcome Reader :=
  let len := file.bytes.length
  if hlen : len < 40 then
    .err (.corruption ("SSTable too small: " ++ toString len ++
      " bytes (need at least 40 for header+footer)"))
  else if file.bytes.take 8 ≠ magic then .err (.corruption "SSTable header magic mismatch")
  else if slice file.bytes (len - 24) 8 ≠ magic then
    .err (.corruption "SSTable footer magic mismatch")
  else if footerCount file * 8 < 2 ^ 64 ∧ footerIndex file + footerCount file * 8 < 2 ^ 64 then
    if h : len - 24 < footerIndex file + footerCount file * 8 then
      .err (.corruption ("SSTable index out of range: index_end=" ++
        toString (footerIndex file + footerCount file * 8) ++ ", file_len=" ++ toString len))
    else .ok
      { mmap := file, pageCount := footerCount file, indexOffset := footerIndex file
        index_fits := by omega }
  else .panic

namespace Reader

variable (r : Reader)

/-- `page_offset`. -/
def pageOffset (index : Nat) : Outcome Nat := do
  let size ← u64 (index * 8)
  let pos ← u64 (r.indexOffset + size)
  let stop ← u64 (pos + 8)
  if r.mmap.bytes.length < stop then
    .err (.corruption ("page offset for index " ++ toString index ++ " out of range (pos=" ++
      toString pos ++ ", file_len=" ++ toString r.mmap.bytes.length ++ ")"))
  else .ok (value (slice r.mmap.bytes pos 8))

/-- `read_page`. The mapping starts at a page of memory, so an offset and its address have the same
remainder. -/
def readPage (index : Nat) : Outcome Page :=
  if r.pageCount ≤ index then
    .err (.notFound ("page index " ++ toString index ++ " out of range (page_count = " ++
      toString r.pageCount ++ ")"))
  else do
    let offset ← r.pageOffset index
    let stop ← u64 (offset + 4096)
    if r.mmap.bytes.length < stop then
      .err (.corruption ("page data for index " ++ toString index ++ " out of range (offset=" ++
        toString offset ++ ", file_len=" ++ toString r.mmap.bytes.length ++ ")"))
    else Page.fromBytes offset (slice r.mmap.bytes offset 4096)

/-- `first_cell`: `none` where the index or the page is out of range. -/
def firstCell (index : Nat) : Outcome (Option UInt64) :=
  match r.pageOffset index with
  | .err _ => .ok none
  | .panic => .panic
  | .ok offset => do
    let cellPos ← u64 (offset + 64)
    let stop ← u64 (cellPos + 8)
    if r.mmap.bytes.length < stop then .ok none else .ok (some (u64At r.mmap.bytes cellPos))

/-- The loop of `binary_search`. The lower bound never goes below 0; the upper one ends at -1 if
every page starts after the key. -/
def searchLoop (targetKey : UInt64) (lo : Nat) (hi : Int) (result : Option Nat) :
    Outcome (Option Nat) :=
  if _ : lo ≤ hi then
    -- where the sum does not overflow, neither does `mid + 1`
    if 2 ^ 63 ≤ lo + hi then .panic
    else
      let mid := ((lo + hi) / 2).toNat
      match r.firstCell mid with
      | .ok (some firstKey) =>
        if firstKey ≤ targetKey then searchLoop targetKey (mid + 1) hi (some mid)
        else searchLoop targetKey lo ((mid : Int) - 1) result
      | .ok none => .ok result
      | .err e => .err e
      | .panic => .panic
  else .ok result
termination_by (hi + 1 - lo).toNat
decreasing_by all_goals omega

/-- `binary_search`. -/
def binarySearch (targetKey : UInt64) : Outcome (Option Nat) :=
  if r.pageCount = 0 then .ok none
  else
    -- `page_count as i64`
    let count : Int := Int.bmod r.pageCount (2 ^ 64)
    if count = -2 ^ 63 then .panic else r.searchLoop targetKey 0 (count - 1) none

end Reader

/-! ## The bytes of a table -/

variable {w : Writer} {pages : List Page} {file file' : FileBytes} {n : Nat} {bs : List UInt8}
  {i : Nat} {w' : Writer} {page : Page} {rest : List Page} {total : Nat}

theorem u64_eq_ok {n m : Nat} : u64 n = .ok m ↔ n < 2 ^ 64 ∧ m = n := by
  unfold u64
  split
  · next h => exact ⟨fun heq => ⟨h, (Outcome.ok.inj heq).symm⟩, fun heq => by rw [heq.2]⟩
  · next h => exact ⟨nofun, fun heq => absurd heq.1 h⟩

theorem u64_of_lt (h : n < 2 ^ 64) : u64 n = .ok n := if_pos h

theorem writeAll_eq_ok (h : file.writeAll bs = .ok file') : file'.bytes = file.bytes ++ bs := by
  unfold FileBytes.writeAll at h
  split at h
  · cases h
    rfl
  · cases h

theorem writeAt_eq_ok (h : file.writeAt i bs = .ok file') :
    file'.bytes = file.bytes.take i ++ bs ++ file.bytes.drop (i + bs.length) := by
  unfold FileBytes.writeAt at h
  split at h
  · cases h
    rfl
  · cases h

def headerBytes (n : Nat) : List UInt8 := magic ++ le 8 n

def dataBytes (pages : List Page) : List UInt8 := pages.flatMap Page.bytes

/-- The offset of a page. -/
def offsetOf (i : Nat) : Nat := 16 + i * 4096

def indexBytes (n : Nat) : List UInt8 := (List.range n).flatMap fun i => le 8 (offsetOf i)

def footerBytes (n : Nat) : List UInt8 := magic ++ le 8 n ++ le 8 (offsetOf n)

/-- A table file, part by part. -/
def tableBytes (pages : List Page) : List UInt8 :=
  headerBytes pages.length ++ dataBytes pages ++ indexBytes pages.length ++
    footerBytes pages.length

@[simp] theorem length_headerBytes : (headerBytes n).length = 16 := by
  simp [headerBytes, magic]

@[simp] theorem length_dataBytes : (dataBytes pages).length = pages.length * 4096 :=
  length_flatMap_const Page.length_bytes

@[simp] theorem length_indexBytes : (indexBytes n).length = n * 8 := by
  rw [indexBytes, length_flatMap_const fun i => length_le (offsetOf i), length_range]

@[simp] theorem length_footerBytes : (footerBytes n).length = 24 := by
  simp [footerBytes, magic]

/-- What a writer has written after some pages. -/
structure Writer.Holds (w : Writer) (pages : List Page) : Prop where
  bytes : w.file.bytes = headerBytes 0 ++ dataBytes pages
  count : w.pageCount = pages.length
  offsets : w.pageOffsets = (List.range pages.length).map offsetOf

theorem holds_create (h : Writer.create = .ok w) : w.Holds [] := by
  simp only [Writer.create, Outcome.bind_eq_ok, Outcome.pure_eq_ok] at h
  obtain ⟨file, hmagic, file', hcount, h⟩ := h
  cases h
  constructor
  · rw [writeAll_eq_ok hcount, writeAll_eq_ok hmagic]
    rfl
  · rfl
  · rfl

theorem Writer.Holds.writePage {offset : Nat} (hw : w.Holds pages)
    (h : w.writePage page = .ok (w', offset)) :
    w'.Holds (pages ++ [page]) ∧ offset = offsetOf pages.length := by
  simp only [Writer.writePage, Outcome.bind_eq_ok, Outcome.pure_eq_ok, u64_eq_ok] at h
  obtain ⟨_, ⟨-, rfl⟩, _, ⟨-, rfl⟩, file, hheader, file', hcells, _, ⟨-, rfl⟩, h⟩ := h
  cases h
  have hoffset : 16 + w.pageCount * 4096 = offsetOf pages.length := by rw [hw.count, offsetOf]
  refine ⟨⟨?_, ?_, ?_⟩, hoffset⟩
  · rw [writeAll_eq_ok hcells, writeAll_eq_ok hheader, hw.bytes]
    simp [dataBytes, Page.bytes]
  · simp [hw.count]
  · simp [hw.offsets, hoffset, range_succ]

theorem Writer.Holds.writePages (hw : w.Holds pages)
    (h : rest.foldlM (fun w page => Prod.fst <$> w.writePage page) w = .ok w') :
    w'.Holds (pages ++ rest) := by
  induction rest generalizing w pages with
  | nil =>
    cases h
    rwa [append_nil]
  | cons page rest ih =>
    rw [foldlM_cons, Outcome.bind_eq_ok] at h
    obtain ⟨u, hu, hrest⟩ := h
    rw [map_eq_pure_bind, Outcome.bind_eq_ok] at hu
    obtain ⟨⟨v, offset⟩, hv, hu⟩ := hu
    cases hu
    rw [append_cons]
    exact ih (hw.writePage hv).1 hrest

theorem Writer.Holds.finish (hw : w.Holds pages) (h : w.finish = .ok (file, total)) :
    file.bytes = tableBytes pages ∧ total = file.bytes.length := by
  simp only [Writer.finish, Outcome.bind_eq_ok, Outcome.pure_eq_ok, u64_eq_ok] at h
  obtain ⟨_, ⟨-, rfl⟩, _, ⟨-, rfl⟩, f₁, h₁, f₂, h₂, f₃, h₃, f₄, h₄, f₅, h₅, _,
    ⟨-, rfl⟩, _, ⟨-, rfl⟩, _, ⟨-, rfl⟩, h⟩ := h
  cases h
  have hbytes : file.bytes = tableBytes pages := by
    rw [writeAt_eq_ok h₅, writeAll_eq_ok h₄, writeAll_eq_ok h₃, writeAll_eq_ok h₂,
      writeAll_eq_ok h₁, hw.bytes, hw.offsets, hw.count]
    simp [headerBytes, tableBytes, footerBytes, indexBytes, magic, flatMap_map, offsetOf]
  refine ⟨hbytes, ?_⟩
  rw [hbytes, hw.count]
  simp [tableBytes, Nat.add_assoc]

theorem writeTable_eq_ok (h : writeTable pages = .ok (file, total)) :
    file.bytes = tableBytes pages ∧ total = file.bytes.length := by
  simp only [writeTable, Outcome.bind_eq_ok] at h
  obtain ⟨w, hcreate, w', hpages, hfinish⟩ := h
  exact ((holds_create hcreate).writePages hpages).finish hfinish

/-! ### A table that fits can be written -/

theorem length_writeAll (h : file.writeAll bs = .ok file') :
    file'.bytes.length = file.bytes.length + bs.length := by
  rw [writeAll_eq_ok h, length_append]

theorem Writer.Holds.length (hw : w.Holds pages) :
    w.file.bytes.length = 16 + pages.length * 4096 := by
  simp [hw.bytes]

theorem Writer.Holds.writePage_isOk (hw : w.Holds pages) (hfits : pages.length < 2 ^ 50) :
    ∃ w' offset, w.writePage page = .ok (w', offset) := by
  have hlen := hw.length
  have hcount := hw.count
  obtain ⟨file, hfile⟩ := w.file.writeAll_isOk page.header.bytes (by simp; omega)
  have hfileLen := length_writeAll hfile
  rw [PageHeader.length_bytes] at hfileLen
  obtain ⟨file', hfile'⟩ := file.writeAll_isOk page.cells (by rw [page.length_cells]; omega)
  simp only [Writer.writePage, u64_of_lt (show w.pageCount * 4096 < 2 ^ 64 by omega),
    u64_of_lt (show 16 + w.pageCount * 4096 < 2 ^ 64 by omega),
    u64_of_lt (show w.pageCount + 1 < 2 ^ 64 by omega), Outcome.ok_bind, hfile, hfile']
  exact ⟨_, _, rfl⟩

theorem Writer.Holds.writePages_isOk (hw : w.Holds pages)
    (hfits : pages.length + rest.length ≤ 2 ^ 50) :
    ∃ w', rest.foldlM (fun w page => Prod.fst <$> w.writePage page) w = .ok w' := by
  induction rest generalizing w pages with
  | nil => exact ⟨w, rfl⟩
  | cons page rest ih =>
    rw [length_cons] at hfits
    obtain ⟨w', offset, hpage⟩ := hw.writePage_isOk (by omega)
    rw [foldlM_cons, hpage]
    refine ih (hw.writePage hpage).1 ?_
    rw [length_append, length_singleton]
    omega

theorem Writer.Holds.finish_isOk (hw : w.Holds pages) (hfits : pages.length ≤ 2 ^ 50) :
    ∃ p, w.finish = .ok p := by
  have hlen := hw.length
  have hcount := hw.count
  have hindex : (w.pageOffsets.flatMap (le 8)).length = pages.length * 8 := by
    rw [length_flatMap_const length_le, hw.offsets, length_map, length_range]
  obtain ⟨f₁, h₁⟩ := w.file.writeAll_isOk (w.pageOffsets.flatMap (le 8)) (by omega)
  have hlen₁ := length_writeAll h₁
  obtain ⟨f₂, h₂⟩ := f₁.writeAll_isOk magic (by simp [magic]; omega)
  have hlen₂ : f₂.bytes.length = f₁.bytes.length + 8 := length_writeAll h₂
  obtain ⟨f₃, h₃⟩ := f₂.writeAll_isOk (le 8 w.pageCount) (by simp; omega)
  have hlen₃ := length_writeAll h₃
  rw [length_le] at hlen₃
  obtain ⟨f₄, h₄⟩ := f₃.writeAll_isOk (le 8 (16 + w.pageCount * 4096)) (by simp; omega)
  have hlen₄ := length_writeAll h₄
  rw [length_le] at hlen₄
  obtain ⟨f₅, h₅⟩ : ∃ f₅, f₄.writeAt 8 (le 8 w.pageCount) = .ok f₅ := ⟨_, dif_pos (by
    simp only [length_append, length_take, length_drop, length_le]
    omega)⟩
  simp only [Writer.finish, u64_of_lt (show w.pageCount * 4096 < 2 ^ 64 by omega),
    u64_of_lt (show 16 + w.pageCount * 4096 < 2 ^ 64 by omega), Outcome.ok_bind, h₁, h₂, h₃, h₄, h₅,
    u64_of_lt (show w.pageCount * 8 < 2 ^ 64 by omega),
    u64_of_lt (show 16 + w.pageCount * 4096 + w.pageCount * 8 < 2 ^ 64 by omega),
    u64_of_lt (show 16 + w.pageCount * 4096 + w.pageCount * 8 + 24 < 2 ^ 64 by omega)]
  exact ⟨_, rfl⟩

/-- A table can be written if the file does not get too long. -/
theorem writeTable_isOk (pages : List Page) (hfits : pages.length ≤ 2 ^ 50) :
    ∃ file total, writeTable pages = .ok (file, total) := by
  obtain ⟨w, hcreate⟩ : ∃ w, Writer.create = .ok w := ⟨_, rfl⟩
  obtain ⟨w', hpages⟩ := (holds_create hcreate).writePages_isOk (by simpa using hfits)
  obtain ⟨⟨file, total⟩, hfinish⟩ :=
    ((holds_create hcreate).writePages hpages).finish_isOk (by simpa using hfits)
  exact ⟨file, total,
    by rw [writeTable, hcreate, Outcome.ok_bind, hpages, Outcome.ok_bind, hfinish]⟩

/-! ## Reading a table back -/

section

variable {file : FileBytes} {pages : List Page} (h : file.bytes = tableBytes pages)

include h

theorem length_table : file.bytes.length = pages.length * 4104 + 40 := by
  rw [h]
  simp only [tableBytes, length_append, length_headerBytes, length_dataBytes,
    length_indexBytes, length_footerBytes]
  omega

theorem offsetOf_lt (hi : i ≤ pages.length) : offsetOf i < 256 ^ 8 := by
  have hlen := length_table h
  have hlt := file.length_lt
  rw [offsetOf]
  omega

theorem slice_page (hi : i < pages.length) :
    slice file.bytes (offsetOf i) 4096 = pages[i].bytes := by
  have hend : offsetOf i + 4096 ≤ 16 + pages.length * 4096 := by rw [offsetOf]; omega
  rw [h, tableBytes, append_assoc, slice_append_left (by simpa using hend),
    slice_append_of_le (by simp [offsetOf]), length_headerBytes, offsetOf, Nat.add_sub_cancel_left,
    dataBytes, slice_flatMap Page.length_bytes hi]

theorem slice_index (hi : i < pages.length) :
    slice file.bytes (offsetOf pages.length + i * 8) 8 = le 8 (offsetOf i) := by
  have hrange : i < (List.range pages.length).length := by simpa using hi
  rw [h, tableBytes, slice_append_left (by simp [offsetOf]; omega),
    slice_append_of_le (by simp [offsetOf]), length_append, length_headerBytes,
    length_dataBytes, offsetOf, Nat.add_sub_cancel_left, indexBytes,
    slice_flatMap (fun i => length_le (offsetOf i)) hrange, getElem_range]

theorem slice_footer (hi : i ≤ 16) :
    slice file.bytes (file.bytes.length - 24 + i) 8 = slice (footerBytes pages.length) i 8 := by
  have hfront : (headerBytes pages.length ++ dataBytes pages ++ indexBytes pages.length).length =
      file.bytes.length - 24 := by
    rw [length_table h]
    simp only [length_append, length_headerBytes, length_dataBytes, length_indexBytes]
    omega
  rw [← hfront, h, tableBytes, slice_append_of_le (by omega), Nat.add_sub_cancel_left]

theorem footerCount_table : footerCount file = pages.length := by
  have hlen := length_table h
  have hlt := file.length_lt
  have hslice : slice (footerBytes pages.length) 8 8 = le 8 pages.length := by
    rw [footerBytes, slice_append_left (by simp [magic]), slice_append_of_le (by simp [magic]),
      show 8 - magic.length = 0 from rfl, slice_all (length_le _)]
  rw [footerCount, slice_footer h (by decide), hslice, value_le_of_lt (by omega)]

theorem footerIndex_table : footerIndex file = offsetOf pages.length := by
  have hslice : slice (footerBytes pages.length) 16 8 = le 8 (offsetOf pages.length) := by
    rw [footerBytes, slice_append_of_le (by simp [magic]), length_append, length_le,
      show 16 - (magic.length + 8) = 0 from rfl, slice_all (length_le _)]
  rw [footerIndex, slice_footer h (by decide), hslice,
    value_le_of_lt (offsetOf_lt h (Nat.le_refl _))]

/-- The reader of a table. -/
theorem openFile_table : ∃ r, openFile file = .ok r ∧ r.mmap = file ∧
    r.pageCount = pages.length ∧ r.indexOffset = offsetOf pages.length := by
  have hlen := length_table h
  have hlt := file.length_lt
  have hcount := footerCount_table h
  have hindex := footerIndex_table h
  have hheader : file.bytes.take 8 = magic := by
    rw [h, tableBytes, headerBytes, append_assoc, append_assoc, append_assoc]
    rfl
  have hfooter : slice file.bytes (file.bytes.length - 24) 8 = magic := by
    rw [← Nat.add_zero (_ - 24), slice_footer h (by decide), footerBytes, append_assoc,
      slice_append_left (by decide)]
    rfl
  have hsize : footerIndex file + footerCount file * 8 + 24 = file.bytes.length := by
    rw [hlen, hcount, hindex, offsetOf]
    omega
  rw [openFile, dif_neg (by omega), if_neg (not_not.mpr hheader), if_neg (not_not.mpr hfooter),
    if_pos (by omega), dif_neg (by omega)]
  exact ⟨_, rfl, rfl, hcount, hindex⟩

end

/-- The index is within the file. -/
theorem pageOffset_eq {r : Reader} (hi : i < r.pageCount) :
    r.pageOffset i = .ok (value (slice r.mmap.bytes (r.indexOffset + i * 8) 8)) := by
  have hfits := r.index_fits
  have hlt := r.mmap.length_lt
  simp only [Reader.pageOffset]
  rw [u64_of_lt (by omega), Outcome.ok_bind, u64_of_lt (by omega), Outcome.ok_bind,
    u64_of_lt (by omega), Outcome.ok_bind, if_neg (by omega)]

section Pages

variable {r : Reader} {pages : List Page} (h : r.mmap.bytes = tableBytes pages)
  (hindex : r.indexOffset = offsetOf pages.length) (hcount : r.pageCount = pages.length)

include h hindex hcount

theorem pageOffset_table (hi : i < pages.length) : r.pageOffset i = .ok (offsetOf i) := by
  rw [pageOffset_eq (hcount ▸ hi), hindex, slice_index h hi,
    value_le_of_lt (offsetOf_lt h (Nat.le_of_lt hi))]

theorem readPage_table (hi : i < pages.length) : r.readPage i = .ok pages[i] := by
  have hlen := length_table h
  have hlt := r.mmap.length_lt
  have hend : offsetOf i + 4096 ≤ r.mmap.bytes.length := by
    rw [offsetOf]
    omega
  rw [Reader.readPage, if_neg (by omega), pageOffset_table h hindex hcount hi, Outcome.ok_bind,
    u64_of_lt (by omega), Outcome.ok_bind, if_neg (by omega), slice_page h hi,
    Page.fromBytes_bytes]
  rw [offsetOf]
  omega

theorem firstCell_table (hi : i < pages.length) : r.firstCell i = .ok (some (pages[i].cell 0)) := by
  have hlen := length_table h
  have hlt := r.mmap.length_lt
  have hend : offsetOf i + 4096 ≤ r.mmap.bytes.length := by
    rw [offsetOf]
    omega
  -- the first cell stands behind the header of the page
  have hcell : slice r.mmap.bytes (offsetOf i + 64) 8 = slice pages[i].cells 0 8 := by
    have hpage := slice_page h hi
    rw [← slice_slice (n := 4096) (by decide), hpage, Page.bytes,
      slice_append_of_le (by simp), PageHeader.length_bytes]
  simp only [Reader.firstCell, pageOffset_table h hindex hcount hi]
  rw [u64_of_lt (by omega), Outcome.ok_bind, u64_of_lt (by omega), Outcome.ok_bind,
    if_neg (by omega), u64At, hcell]
  rfl

end Pages

/-! ## Searching -/

/-- The position of the last key up to the target, if there is one. -/
def IsFloor (keys : List UInt64) (target : UInt64) : Option Nat → Prop
  | none => ∀ key ∈ keys, target < key
  | some i => ∃ hi : i < keys.length, keys[i] ≤ target ∧
      ∀ j (hj : j < keys.length), i < j → target < keys[j]

section Search

variable {r : Reader} {keys : List UInt64} {target : UInt64}

/-- The keys below `lo` are up to the target, the ones from `stop` on are greater. -/
structure Narrowed (keys : List UInt64) (target : UInt64) (lo stop : Nat) : Prop where
  le : lo ≤ stop
  stop_le : stop ≤ keys.length
  below : ∀ i (hi : i < keys.length), i < lo → keys[i] ≤ target
  above : ∀ i (hi : i < keys.length), stop ≤ i → target < keys[i]

theorem Narrowed.isFloor {lo : Nat} (h : Narrowed keys target lo lo) :
    IsFloor keys target (if lo = 0 then none else some (lo - 1)) := by
  split
  · next hzero =>
    intro key hkey
    obtain ⟨i, hi, rfl⟩ := mem_iff_getElem.mp hkey
    exact h.above i hi (by omega)
  · next hpos =>
    have := h.stop_le
    exact ⟨by omega, h.below _ _ (by omega), fun j hj hlt => h.above j hj (by omega)⟩

theorem binarySearch_eq (hpos : r.pageCount ≠ 0) :
    r.binarySearch target = r.searchLoop target 0 (r.pageCount - 1) none := by
  have hfits := r.index_fits
  have hlt := r.mmap.length_lt
  have hcast : Int.bmod r.pageCount (2 ^ 64) = r.pageCount :=
    Int.bmod_eq_of_le (by omega) (by omega)
  rw [Reader.binarySearch, if_neg hpos, hcast]
  exact if_neg (by omega)

/-- The loop narrows the bounds until they meet. -/
theorem searchLoop_isFloor (hsorted : keys.Pairwise (· ≤ ·)) (hshort : keys.length < 2 ^ 62)
    (hcells : ∀ i (hi : i < keys.length), r.firstCell i = .ok (some keys[i])) {lo stop : Nat}
    (h : Narrowed keys target lo stop) :
    ∃ result, r.searchLoop target lo (stop - 1) (if lo = 0 then none else some (lo - 1)) =
      .ok result ∧ IsFloor keys target result := by
  induction hn : stop - lo using Nat.strong_induction_on generalizing lo stop with
  | _ n ih =>
    have hle := h.le
    have hstop := h.stop_le
    rw [Reader.searchLoop]
    by_cases hlt : lo < stop
    · obtain ⟨mid, hmid⟩ : ∃ mid : Nat, ((lo : Int) + (stop - 1)) / 2 = mid :=
        ⟨(((lo : Int) + (stop - 1)) / 2).toNat, by omega⟩
      have hmidlt : mid < keys.length := by omega
      rw [dif_pos (by omega), if_neg (by omega)]
      simp only [hmid, Int.toNat_natCast, hcells mid hmidlt]
      by_cases hkey : keys[mid] ≤ target
      · have hnarrow : Narrowed keys target (mid + 1) stop :=
          { h with
            le := by omega
            below := fun i hi hilt => by
              have := pairwise_iff_getElem.mp hsorted i mid hi hmidlt
              rcases Nat.lt_succ_iff_lt_or_eq.mp hilt with hlt | rfl
              · exact UInt64.le_trans (this hlt) hkey
              · exact hkey }
        rw [if_pos hkey]
        have := ih (stop - (mid + 1)) (by omega) hnarrow rfl
        simpa using this
      · have hnarrow : Narrowed keys target lo mid :=
          { h with
            le := by omega
            stop_le := by omega
            above := fun i hi hige => by
              have := pairwise_iff_getElem.mp hsorted mid i hmidlt hi
              have hgt := UInt64.not_le.mp hkey
              rcases Nat.eq_or_lt_of_le hige with rfl | hlt
              · exact hgt
              · exact UInt64.lt_of_lt_of_le hgt (this hlt) }
        rw [if_neg hkey]
        exact ih (mid - lo) (by omega) hnarrow rfl
    · obtain rfl : lo = stop := by omega
      rw [dif_neg (by omega)]
      exact ⟨_, rfl, h.isFloor⟩

theorem binarySearch_isFloor (hsorted : keys.Pairwise (· ≤ ·)) (hcount : r.pageCount = keys.length)
    (hcells : ∀ i (hi : i < keys.length), r.firstCell i = .ok (some keys[i])) :
    ∃ result, r.binarySearch target = .ok result ∧ IsFloor keys target result := by
  have hfits := r.index_fits
  have hlt := r.mmap.length_lt
  have hall : Narrowed keys target 0 keys.length :=
    { le := Nat.zero_le _
      stop_le := Nat.le_refl _
      below := fun i _ hi => absurd hi (Nat.not_lt_zero i)
      above := fun i hi hle => absurd hi (Nat.not_lt.mpr hle) }
  by_cases hzero : r.pageCount = 0
  · obtain rfl : keys = [] := eq_nil_of_length_eq_zero (hcount ▸ hzero)
    exact ⟨none, if_pos hzero, hall.isFloor⟩
  · rw [binarySearch_eq hzero, hcount]
    exact searchLoop_isFloor hsorted (by omega) hcells hall

end Search

variable {result : Option Nat} {target : UInt64} {keys : List UInt64}

theorem IsFloor.eq_none_iff
    (h : IsFloor keys target result) : result = none ↔ ∀ key ∈ keys, target < key := by
  cases result with
  | none => exact ⟨fun _ => h, fun _ => rfl⟩
  | some i =>
    obtain ⟨hi, hle, -⟩ := h
    refine ⟨nofun, fun hall => ?_⟩
    exact absurd hle (UInt64.not_le.mpr (hall _ (getElem_mem hi)))

/-- There is only one such position. -/
theorem IsFloor.eq_some_iff (h : IsFloor keys target result) :
    result = some i ↔ IsFloor keys target (some i) := by
  refine ⟨fun heq => heq ▸ h, fun ⟨hi, hle, hnext⟩ => ?_⟩
  cases result with
  | none => exact absurd hle (UInt64.not_le.mpr (h _ (getElem_mem hi)))
  | some j =>
    obtain ⟨hj, hle', hnext'⟩ := h
    rcases Nat.lt_trichotomy i j with hlt | rfl | hgt
    · exact absurd hle' (UInt64.not_le.mpr (hnext j hj hlt))
    · rfl
    · exact absurd hle (UInt64.not_le.mpr (hnext' i hi hgt))

/-- Pages written in the order of their first cells are read back, and a search ends at the last
page that starts at or before the key. -/
theorem readTable_writeTable {pages : List Page} (hsorted : (pages.map (·.cell 0)).Pairwise (· ≤ ·))
    {file : FileBytes} {total : Nat} (hwrite : writeTable pages = .ok (file, total)) :
    ∃ r, openFile file = .ok r ∧ (∀ i (hi : i < pages.length), r.readPage i = .ok pages[i]) ∧
      ∀ key, ∃ result, r.binarySearch key = .ok result ∧
        (∀ i, result = some i ↔ ∃ hi : i < pages.length, pages[i].cell 0 ≤ key ∧
          ∀ j (hj : j < pages.length), i < j → key < pages[j].cell 0) ∧
        (result = none ↔ ∀ page ∈ pages, key < page.cell 0) := by
  obtain ⟨hbytes, -⟩ := writeTable_eq_ok hwrite
  obtain ⟨r, hopen, rfl, hcount, hindex⟩ := openFile_table hbytes
  refine ⟨r, hopen, fun i hi => readPage_table hbytes hindex hcount hi, fun key => ?_⟩
  obtain ⟨result, hresult, hfloor⟩ := binarySearch_isFloor hsorted (by simpa using hcount)
    (fun i hi => by
      rw [firstCell_table hbytes hindex hcount (by simpa using hi)]
      simp)
  refine ⟨result, hresult, fun i => ?_, ?_⟩
  · rw [hfloor.eq_some_iff]
    simp [IsFloor]
  · rw [hfloor.eq_none_iff]
    simp

def pageOfNine : Page :=
  { Page.new with
    cells := 9 :: List.replicate 4031 0
    length_cells := by rw [length_cons, length_replicate] }

/-- Two pages that start with 0, and one that starts with 9. -/
theorem readTable_writeTable_nine : ∃ file total r,
    writeTable [.new, .new, pageOfNine] = .ok (file, total) ∧ openFile file = .ok r ∧
      r.readPage 2 = .ok pageOfNine ∧ r.binarySearch 7 = .ok (some 1) ∧
      r.binarySearch 9 = .ok (some 2) := by
  obtain ⟨file, total, hwrite⟩ := writeTable_isOk [.new, .new, pageOfNine] (by decide)
  obtain ⟨r, hopen, hread, hsearch⟩ := readTable_writeTable (by decide) hwrite
  obtain ⟨_, hseven, hsome, -⟩ := hsearch 7
  obtain ⟨_, hnine, hsome', -⟩ := hsearch 9
  obtain rfl := (hsome 1).mpr ⟨by decide, by decide, by decide⟩
  obtain rfl := (hsome' 2).mpr ⟨by decide, by decide, by decide⟩
  exact ⟨file, total, r, hwrite, hopen, hread 2 (by decide), hseven, hnine⟩

/-! ## Any file -/

/-- A value, a `Corruption` or a `NotFound`. -/
def Graceful {α : Type} : Outcome α → Prop
  | .ok _ | .err (.corruption _) | .err (.notFound _) => True
  | .err (.parse _) | .err (.io _) | .err (.other _) | .panic => False

/-- The reader copes with a file: it opens it or not, reads every page or not, and every search
ends. -/
structure Total (file : FileBytes) : Prop where
  opens : Graceful (openFile file)
  reads : ∀ r, openFile file = .ok r → ∀ index, Graceful (r.readPage index)
  searches : ∀ r, openFile file = .ok r → ∀ key, ∃ result, r.binarySearch key = .ok result

/-- Both ends of a file have the magic bytes. -/
def HasMagic (file : FileBytes) : Prop :=
  40 ≤ file.bytes.length ∧ file.bytes.take 8 = magic ∧
    slice file.bytes (file.bytes.length - 24) 8 = magic

/-- The offset the index has for a page. -/
def indexEntry (file : FileBytes) (i : Nat) : Nat :=
  value (slice file.bytes (footerIndex file + i * 8) 8)

/-- A page of the index ends below `2 ^ 64`, and starts at the address of a header if the file has
it. -/
def EntryAddressable (file : FileBytes) (i : Nat) : Prop :=
  indexEntry file i + 4096 < 2 ^ 64 ∧
    (indexEntry file i + 4096 ≤ file.bytes.length → 8 ∣ indexEntry file i)

/-- The condition on the footer and, if it is within the file, on the index. -/
def Addressable (file : FileBytes) : Prop :=
  HasMagic file → footerIndex file + footerCount file * 8 < 2 ^ 64 ∧
    (footerIndex file + footerCount file * 8 + 24 ≤ file.bytes.length →
      ∀ i < footerCount file, EntryAddressable file i)

/-- What `open` does with the two ends of a file. -/
theorem openFile_cases :
    (¬ HasMagic file ∧ ∃ msg, openFile file = .err (.corruption msg)) ∨
    (HasMagic file ∧ ¬ footerIndex file + footerCount file * 8 < 2 ^ 64 ∧ openFile file = .panic) ∨
    (HasMagic file ∧ footerIndex file + footerCount file * 8 < 2 ^ 64 ∧
      ((¬ footerIndex file + footerCount file * 8 + 24 ≤ file.bytes.length ∧
        ∃ msg, openFile file = .err (.corruption msg)) ∨
      ∃ h : footerIndex file + footerCount file * 8 + 24 ≤ file.bytes.length,
        openFile file = .ok ⟨file, footerCount file, footerIndex file, h⟩)) := by
  unfold openFile
  simp only
  split
  · exact .inl ⟨fun hm => by have := hm.1; omega, _, rfl⟩
  · split
    · next hheader => exact .inl ⟨fun hm => hheader hm.2.1, _, rfl⟩
    · next hheader =>
      split
      · next hfooter => exact .inl ⟨fun hm => hfooter hm.2.2, _, rfl⟩
      · next hfooter =>
        have hmagic : HasMagic file := ⟨by omega, not_not.mp hheader, not_not.mp hfooter⟩
        split
        · next hsum =>
          split
          · exact .inr (.inr ⟨hmagic, hsum.2, .inl ⟨by omega, _, rfl⟩⟩)
          · exact .inr (.inr ⟨hmagic, hsum.2, .inr ⟨by omega, rfl⟩⟩)
        · exact .inr (.inl ⟨hmagic, by omega, rfl⟩)

section Reader

variable {r : Reader}

variable {i offset : Nat}

theorem graceful_readPage_iff (hi : i < r.pageCount) (hoffset : r.pageOffset i = .ok offset) :
    Graceful (r.readPage i) ↔
      offset + 4096 < 2 ^ 64 ∧ (offset + 4096 ≤ r.mmap.bytes.length → 8 ∣ offset) := by
  rw [Reader.readPage, if_neg (by omega), hoffset, Outcome.ok_bind, u64]
  split
  · next hlt =>
    rw [Outcome.ok_bind]
    split
    · next hout => exact ⟨fun _ => ⟨hlt, fun hle => absurd hle (by omega)⟩, fun _ => trivial⟩
    · next hin =>
      rw [Page.fromBytes, dif_neg (by rw [length_slice (by omega)]; omega)]
      split
      · exact ⟨fun h => h.elim, fun h => absurd (h.2 (by omega)) (by omega)⟩
      · exact ⟨fun _ => ⟨hlt, fun _ => by omega⟩, fun _ => trivial⟩
  · next hge => exact ⟨fun h => h.elim, fun h => absurd h.1 hge⟩

theorem firstCell_isOk (hoffset : r.pageOffset i = .ok offset)
    (hlt : offset + 4096 < 2 ^ 64) : ∃ cell, r.firstCell i = .ok cell := by
  simp only [Reader.firstCell, hoffset]
  rw [u64_of_lt (by omega), Outcome.ok_bind, u64_of_lt (by omega), Outcome.ok_bind]
  split
  · exact ⟨_, rfl⟩
  · exact ⟨_, rfl⟩

/-- The loop ends if it can read the first cells within its bounds. -/
theorem searchLoop_isOk (hn : n < 2 ^ 62)
    (hcells : ∀ i < n, ∃ cell, r.firstCell i = .ok cell) {lo : Nat} {hi : Int}
    (hhi : hi < n) : ∃ found, r.searchLoop target lo hi result = .ok found := by
  fun_induction r.searchLoop target lo hi result with
  | case1 => omega
  | case2 lo hi result hle hsum mid key hcell hkey ih => exact ih hhi
  | case3 lo hi result hle hsum mid key hcell hkey ih => exact ih (by omega)
  | case4 lo hi result => exact ⟨result, rfl⟩
  | case5 _ _ _ _ _ mid _ hcell | case6 _ _ _ _ _ mid hcell =>
    obtain ⟨cell, hok⟩ := hcells mid (by omega)
    cases hok.symm.trans hcell
  | case7 lo hi result => exact ⟨result, rfl⟩

theorem binarySearch_isOk (hcells : ∀ i < r.pageCount, ∃ cell, r.firstCell i = .ok cell) :
    ∃ found, r.binarySearch target = .ok found := by
  have hfits := r.index_fits
  have hlt := r.mmap.length_lt
  by_cases hzero : r.pageCount = 0
  · exact ⟨none, if_pos hzero⟩
  · rw [binarySearch_eq hzero]
    exact searchLoop_isOk (by omega) hcells (by omega)

end Reader

theorem total_of_corruption {msg : String}
    (h : openFile file = .err (.corruption msg)) : Total file := by
  refine ⟨by rw [h]; trivial, ?_, ?_⟩
  all_goals
    intro r hr
    cases h.symm.trans hr

/-- The reader copes with a file exactly if no sum of its counts and offsets overflows and every
page it has is at the address of a header. -/
theorem total_iff (file : FileBytes) : Total file ↔ Addressable file := by
  rcases openFile_cases with ⟨hmagic, msg, hopen⟩ | ⟨hmagic, hsum, hopen⟩ |
    ⟨hmagic, hsum, ⟨hout, msg, hopen⟩ | ⟨hin, hopen⟩⟩
  · exact ⟨fun _ hm => absurd hm hmagic, fun _ => total_of_corruption hopen⟩
  · refine ⟨fun h => ?_, fun h => absurd (h hmagic).1 hsum⟩
    have := h.opens
    rw [hopen] at this
    exact this.elim
  · exact ⟨fun _ _ => ⟨hsum, fun hin => absurd hin hout⟩, fun _ => total_of_corruption hopen⟩
  · constructor
    · intro h _
      refine ⟨hsum, fun _ i hi => ?_⟩
      exact (graceful_readPage_iff hi (pageOffset_eq hi)).mp (h.reads _ hopen i)
    · intro h
      have hentries := (h hmagic).2 hin
      refine ⟨by rw [hopen]; trivial, fun r hr index => ?_, fun r hr key => ?_⟩
      all_goals
        obtain rfl := Outcome.ok.inj (hopen.symm.trans hr)
      · by_cases hi : index < footerCount file
        · exact (graceful_readPage_iff hi (pageOffset_eq hi)).mpr (hentries index hi)
        · rw [Reader.readPage, if_pos (Nat.not_lt.mp hi)]
          trivial
      · refine binarySearch_isOk (fun i hi => ?_)
        exact firstCell_isOk (pageOffset_eq hi) (hentries i hi).1

/-- A file with one page at an offset so high that its end is 0. -/
def wrappingFile : FileBytes where
  bytes := magic ++ le 8 1 ++ le 8 (2 ^ 64 - 4096) ++ magic ++ le 8 1 ++ le 8 16
  length_lt := by decide

theorem wrappingFile_panics : ∃ r, openFile wrappingFile = .ok r ∧ r.readPage 0 = .panic := by
  have hopen : (openFile wrappingFile >>= fun r => r.readPage 0) = .panic ∧
      ∃ r, openFile wrappingFile = .ok r := ⟨by decide +kernel, _, rfl⟩
  obtain ⟨hread, r, hr⟩ := hopen
  rw [hr] at hread
  exact ⟨r, hr, hread⟩

end SsTable

end TensorVault
