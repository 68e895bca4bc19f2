import TensorVault.Lib.ShiftRegister
import TensorVault.Storage.Page

/-!
# Checksum and parity of a page

`verify_and_correct` detects a change by the CRC32C of the cells. If the parity differs in a single
bit it tries this bit in every word. `verifyAndCorrect_flips`: this is exact for one flipped bit,
and two flipped bits are always detected, by the linearity of the checksum and since its register
does not come back to 1 within the 32256 bits of a page.
-/

namespace TensorVault

variable {cells : List UInt8} {i : Nat}

open Bytes ShiftRegister List

/-! ## The two codes -/

/-- `CRC32C_POLY_REVERSED`. -/
def crc32cPoly : BitVec 32 := 0x82F63B78#32

/-- A round of `crc32c_scalar`: the mask is all ones if the low bit is set. -/
def crcRound (crc : BitVec 32) : BitVec 32 :=
  let mask := 0#32 - (crc &&& 1#32)
  (crc >>> 1) ^^^ (crc32cPoly &&& mask)

def crcByte (crc : BitVec 32) (b : UInt8) : BitVec 32 :=
  crcRound^[8] (crc ^^^ b.toBitVec.setWidth 32)

def crc32cScalar (cells : List UInt8) : BitVec 32 :=
  cells.foldl crcByte 0xFFFFFFFF#32 ^^^ 0xFFFFFFFF#32

/-- The polynomial of the crc32 instructions, without its leading term. -/
def instructionPoly : BitVec 32 := (0x1EDC6F41#32).reverse

/-- The crc32 instructions divide their operand by the polynomial, from its low bit on. -/
def mmCrc32 (crc : BitVec 32) (word : List UInt8) : BitVec 32 :=
  feedBits instructionPoly (8 * word.length) crc (value word)

/-- `_mm_crc32_u64` has the register in the low half of a word. -/
def mmCrc32U64 (crc : BitVec 64) (word : List UInt8) : BitVec 64 :=
  (mmCrc32 (crc.setWidth 32) word).setWidth 64

/-- Words of `n` bytes are taken off the tail as long as there are some. -/
def takeWords {σ : Type} (n : Nat) (step : σ → List UInt8 → σ) (crc : σ) (tail : List UInt8) :
    σ × List UInt8 :=
  if 0 < n ∧ n ≤ tail.length then takeWords n step (step crc (tail.take n)) (tail.drop n)
  else (crc, tail)
termination_by tail.length
decreasing_by rw [length_drop]; omega

/-- `crc32c_sse42`. -/
def crc32cSse42 (cells : List UInt8) : BitVec 32 :=
  let chunks := takeWords 8 mmCrc32U64 0xFFFFFFFF#64 cells
  let fours := takeWords 4 mmCrc32 (chunks.1.setWidth 32) chunks.2
  let twos := takeWords 2 mmCrc32 fours.1 fours.2
  let crc32 := if twos.2.isEmpty then twos.1 else mmCrc32 twos.1 (twos.2.take 1)
  crc32 ^^^ 0xFFFFFFFF#32

/-- The words of some bytes, `chunks_exact(8)`. -/
def words (cells : List UInt8) : List UInt64 :=
  (List.range (cells.length / 8)).map fun i => u64At cells (i * 8)

/-- `compute_parity`; bytes behind the last word count as a word filled up with zeros. -/
def computeParity (cells : List UInt8) : UInt64 :=
  let parity := (words cells).foldl (· ^^^ ·) 0
  let tail := cells.drop (cells.length / 8 * 8)
  if tail.isEmpty then parity else parity ^^^ UInt64.ofNat (value tail)

/-! ## Pages -/

/-- `u64::count_ones`. -/
def countOnes (n : UInt64) : Nat := (List.range 64).countP fun i => n.toBitVec.getLsbD i

/-- `u64::trailing_zeros`, which is 64 for 0. -/
def trailingZeros (n : UInt64) : Nat := (List.range 64).findIdx fun i => n.toBitVec.getLsbD i

/-- A number in the format `:#018x`. -/
def hex018 (n : UInt64) : String :=
  let digits := Nat.toDigits 16 n.toNat
  "0x" ++ String.ofList (List.replicate (16 - digits.length) '0' ++ digits)

namespace Page

/-- `verify_checksum`. -/
def verifyChecksum (p : Page) : Bool :=
  UInt64.ofNat (crc32cScalar p.cells).toNat == p.header.checksum

/-- `update_checksum`. -/
def updateChecksum (p : Page) : Page :=
  { p with
    header := { p.header with
      checksum := UInt64.ofNat (crc32cScalar p.cells).toNat
      parity := computeParity p.cells } }

/-- `cells[byte_idx] ^= flip_mask`. -/
def xorByte (p : Page) (byteIdx : Nat) (flipMask : UInt8) : Page where
  header := p.header
  cells := p.cells.modify byteIdx (· ^^^ flipMask)
  length_cells := by rw [length_modify, p.length_cells]

/-- The loop over the words: flip the bit, and flip it back if the checksum is still wrong. -/
def tryWords (byteInWord : Nat) (flipMask : UInt8) : List Nat → Page → Page × Bool
  | [], p => (p, false)
  | wordIdx :: rest, p =>
    let byteIdx := wordIdx * 8 + byteInWord
    let q := p.xorByte byteIdx flipMask
    if q.verifyChecksum then (q, true)
    else tryWords byteInWord flipMask rest (q.xorByte byteIdx flipMask)

def uncorrectable (syndrome : UInt64) : String :=
  "uncorrectable corruption: syndrome = " ++ hex018 syndrome

/-- `verify_and_correct`: the page afterwards and the result. -/
def verifyAndCorrect (p : Page) : Page × Except String Bool :=
  if p.verifyChecksum then (p, .ok false)
  else
    let syndrome := p.header.parity ^^^ computeParity p.cells
    if countOnes syndrome ≠ 1 then
      (p, .error (uncorrectable syndrome ++ " (" ++ toString (countOnes syndrome) ++
        " bits set, expected 1)"))
    else
      let bitPos := trailingZeros syndrome
      let flipMask := 1 <<< UInt8.ofNat (bitPos % 8)
      match tryWords (bitPos / 8) flipMask (List.range (p.cells.length / 8)) p with
      | (q, true) => (q, .ok true)
      | (q, false) => (q, .error (uncorrectable syndrome ++
          " indicates a single bit, but no word flip repaired the CRC " ++
          "(stored CRC may itself be corrupt)"))

/-- Flip a bit of the cells. -/
def flip (p : Page) (pos : Nat) : Page := p.xorByte (pos / 8) (1 <<< UInt8.ofNat (pos % 8))

end Page

/-! ## The checksum of flipped bits -/

theorem crcRound_eq (crc : BitVec 32) : crcRound crc = shift crc32cPoly crc := by
  have hmask : 0#32 - (crc &&& 1#32) = if crc.getLsbD 0 then BitVec.allOnes 32 else 0#32 := by
    rw [BitVec.and_one_eq_setWidth_ofBool_getLsbD]
    cases crc.getLsbD 0 <;> rfl
  rw [crcRound, shift]
  simp only [hmask]
  cases crc.getLsbD 0 with
  | true => rw [if_pos rfl, if_pos rfl, BitVec.and_allOnes]
  | false => simp

theorem crcByte_eq : crcByte = feed crc32cPoly := by
  funext crc b
  rw [crcByte, feed, funext crcRound_eq]

variable {m n pos k : Nat} {bs : List UInt8} {a b : Nat}

/-- The words taken off are fed to the register, and less than a word is left. -/
theorem takeWords_spec {σ : Type} (hn : 0 < n) (step : σ → List UInt8 → σ) (low : σ → BitVec 32)
    (hstep : ∀ c word, low (step c word) = word.foldl (feed crc32cPoly) (low c)) (crc : σ)
    (tail : List UInt8) :
    (takeWords n step crc tail).2.foldl (feed crc32cPoly) (low (takeWords n step crc tail).1) =
      tail.foldl (feed crc32cPoly) (low crc) ∧ (takeWords n step crc tail).2.length < n := by
  fun_induction takeWords n step crc tail with
  | case1 crc tail h ih =>
    rw [ih.1, hstep, ← foldl_append, take_append_drop]
    exact ⟨rfl, ih.2⟩
  | case2 crc tail h => exact ⟨rfl, by simp only; omega⟩

theorem instructionPoly_eq : instructionPoly = crc32cPoly := by decide +kernel

theorem mmCrc32_eq (c : BitVec 32) (word : List UInt8) :
    mmCrc32 c word = word.foldl (feed crc32cPoly) c := by
  induction word generalizing c with
  | nil => rfl
  | cons b word ih =>
    rw [foldl_cons, ← ih, feed, ← BitVec.ofNat_toNat, ← instructionPoly_eq]
    exact feedBits_add instructionPoly (by decide) c b.toNat_lt (value word)

/-- The checksum is the same with and without the instructions. -/
theorem crc32cSse42_eq (cells : List UInt8) : crc32cSse42 cells = crc32cScalar cells := by
  have hlow : ∀ c word, (mmCrc32U64 c word).setWidth 32 =
      word.foldl (feed crc32cPoly) (c.setWidth 32) := fun c word => by
    rw [← mmCrc32_eq]
    exact BitVec.setWidth_setWidth_of_le _ (by decide)
  have h8 := takeWords_spec (by decide : 0 < 8) mmCrc32U64 (BitVec.setWidth 32) hlow 0xFFFFFFFF#64
    cells
  simp only [crc32cScalar, crcByte_eq, crc32cSse42]
  generalize takeWords 8 mmCrc32U64 0xFFFFFFFF#64 cells = chunks at h8 ⊢
  have h4 :=
    takeWords_spec (by decide : 0 < 4) mmCrc32 id mmCrc32_eq (chunks.1.setWidth 32) chunks.2
  generalize takeWords 4 mmCrc32 (chunks.1.setWidth 32) chunks.2 = fours at h4 ⊢
  have h2 := takeWords_spec (by decide : 0 < 2) mmCrc32 id mmCrc32_eq fours.1 fours.2
  generalize takeWords 2 mmCrc32 fours.1 fours.2 = twos at h2 ⊢
  have hlast : (if twos.2.isEmpty then twos.1 else mmCrc32 twos.1 (twos.2.take 1)) =
      twos.2.foldl (feed crc32cPoly) twos.1 := by
    split
    · next h => rw [isEmpty_iff.mp h]; rfl
    · rw [take_of_length_le (by omega), mmCrc32_eq]
  rw [hlast]
  exact congrArg (· ^^^ _) (h2.1.trans (h4.1.trans h8.1))

/-- No two bits of a page have the same trace. -/
theorem trace_page_ne (hne : m ≠ n) (hm : m ≤ 32256) (hn : n ≤ 32256) :
    trace crc32cPoly m ≠ trace crc32cPoly n := by
  have hrun : (walk crc32cPoly.toNat 180)^[180] 1 ≠ 0 := by decide +kernel
  rcases Nat.lt_or_gt_of_ne hne with hlt | hgt
  · exact (trace_ne_trace (by decide) rfl hrun hlt (by omega)).symm
  · exact trace_ne_trace (by decide) rfl hrun hgt (by omega)

theorem crc32cScalar_flipAt (hpos : pos < 8 * cells.length) :
    crc32cScalar (flipAt cells pos) =
      crc32cScalar cells ^^^ trace crc32cPoly (8 * cells.length - pos) := by
  rw [crc32cScalar, crc32cScalar, crcByte_eq, foldl_feed_flipAt crc32cPoly (by decide) _ hpos,
    BitVec.xor_assoc, BitVec.xor_comm (trace _ _), BitVec.xor_assoc]

/-- The checksum sees one flipped bit. -/
theorem crc32cScalar_flipAt_ne (hi : i < 8 * cells.length) :
    crc32cScalar (flipAt cells i) ≠ crc32cScalar cells := by
  rw [crc32cScalar_flipAt hi]
  intro heq
  refine trace_ne_zero (show crc32cPoly.msb = true from rfl) (8 * cells.length - i) ?_
  have := congrArg (crc32cScalar cells ^^^ ·) heq
  simpa [← BitVec.xor_assoc] using this

/-- The checksum sees two flipped bits. -/
theorem crc32cScalar_flipAt_flipAt_ne (hlen : cells.length = 4032) {j : Nat} (hi : i < 32256)
    (hj : j < 32256) (hne : i ≠ j) :
    crc32cScalar (flipAt (flipAt cells i) j) ≠ crc32cScalar cells := by
  rw [crc32cScalar_flipAt (by rw [length_flipAt]; omega), crc32cScalar_flipAt (by omega),
    length_flipAt, hlen, BitVec.xor_assoc]
  intro heq
  have := congrArg (crc32cScalar cells ^^^ ·) heq
  simp only [← BitVec.xor_assoc, BitVec.xor_self, BitVec.zero_xor] at this
  rw [BitVec.xor_eq_zero_iff] at this
  exact trace_page_ne (by omega) (by omega) (by omega) this

/-! ## The parity of flipped bits -/

/-- A word with one bit. -/
def oneBit (k : Nat) : UInt64 := 1 <<< UInt64.ofNat k

theorem testBit_oneBit (hk : k < 64) : (oneBit k).toNat.testBit n = decide (k = n) := by
  have hbit : (oneBit k).toNat = 2 ^ k :=
    (by decide : ∀ k < 64, (oneBit k).toNat = 2 ^ k) k hk
  rw [hbit, Nat.testBit_two_pow]

theorem testBit_u64At {p : Nat} :
    (u64At bs p).toNat.testBit n =
      (decide (n < 64) && (bs.getD (p + n / 8) 0).toNat.testBit (n % 8)) := by
  rw [u64At, UInt64.toNat_ofNat', Nat.testBit_mod_two_pow, testBit_value]
  by_cases hn : n < 64
  · rw [getD_eq_getElem?_getD, getD_eq_getElem?_getD, getElem?_slice (by omega)]
  · simp [hn]

theorem getD_flipAt (hi : i < 8 * bs.length) :
    ((flipAt bs i).getD m 0).toNat.testBit n =
      ((bs.getD m 0).toNat.testBit n ^^ decide (i / 8 = m ∧ i % 8 = n)) := by
  simp only [flipAt, getD_eq_getElem?_getD, getElem?_modify]
  by_cases hm : i / 8 = m
  · have hlt : m < bs.length := by omega
    simp [hm, hlt, testBit_flipBit (Nat.mod_lt i (by decide : 0 < 8))]
  · simp [hm]

theorem words_flipAt (hi : i < 8 * cells.length) :
    words (flipAt cells i) = (words cells).modify (i / 64) (· ^^^ oneBit (i % 64)) := by
  refine ext_getElem (by simp [words]) fun k hk _ => ?_
  rw [getElem_modify]
  simp only [words, getElem_map, getElem_range]
  apply UInt64.toNat_inj.mp
  refine Nat.eq_of_testBit_eq fun n => ?_
  split
  · next hword =>
    rw [UInt64.toNat_xor, Nat.testBit_xor, testBit_oneBit (Nat.mod_lt i (by decide)),
      testBit_u64At, testBit_u64At, getD_flipAt hi]
    by_cases hn : n < 64
    · simp [hn, show (i / 8 = k * 8 + n / 8 ∧ i % 8 = n % 8) ↔ i % 64 = n by omega]
    · simp [hn, show i % 64 ≠ n by omega]
  · next hword =>
    rw [testBit_u64At, testBit_u64At, getD_flipAt hi]
    by_cases hn : n < 64
    · have hout : ¬ (i / 8 = k * 8 + n / 8 ∧ i % 8 = n % 8) := by omega
      simp only [hout, decide_false, Bool.xor_false]
    · simp [hn]

theorem foldl_xor_modify {d : UInt64} :
    ∀ {l : List UInt64} {k : Nat} (_ : k < l.length) (a : UInt64),
      (l.modify k (· ^^^ d)).foldl (· ^^^ ·) a = l.foldl (· ^^^ ·) a ^^^ d
  | x :: l, 0, _, a => by
    have hout : ∀ (l : List UInt64) (a : UInt64),
        l.foldl (· ^^^ ·) (a ^^^ d) = l.foldl (· ^^^ ·) a ^^^ d := fun l => by
      induction l with
      | nil => exact fun _ => rfl
      | cons y l ih =>
        intro a
        rw [foldl_cons, foldl_cons, ← ih, UInt64.xor_assoc, UInt64.xor_comm d, UInt64.xor_assoc]
    rw [modify_zero_cons, foldl_cons, foldl_cons, ← UInt64.xor_assoc, hout]
  | x :: l, k + 1, hk, a => foldl_xor_modify (Nat.lt_of_succ_lt_succ hk) (a ^^^ x)

theorem computeParity_flipAt (hlen : cells.length % 8 = 0) (hi : i < 8 * cells.length) :
    computeParity (flipAt cells i) = computeParity cells ^^^ oneBit (i % 64) := by
  have hparity : ∀ bs : List UInt8, bs.length % 8 = 0 →
      computeParity bs = (words bs).foldl (· ^^^ ·) 0 := fun bs hbs => by
    have htail : bs.drop (bs.length / 8 * 8) = [] := drop_of_length_le (by omega)
    simp [computeParity, htail]
  rw [hparity cells hlen, hparity _ (by simpa using hlen), words_flipAt hi,
    foldl_xor_modify (by simp [words]; omega)]

/-! ## Syndromes -/

theorem countOnes_oneBit (hk : k < 64) : countOnes (oneBit k) = 1 :=
  (by decide +kernel : ∀ k < 64, countOnes (oneBit k) = 1) k hk

theorem trailingZeros_oneBit (hk : k < 64) : trailingZeros (oneBit k) = k :=
  (by decide +kernel : ∀ k < 64, trailingZeros (oneBit k) = k) k hk

/-- A word with a single bit set has no other one. -/
theorem eq_of_countOnes {n : UInt64} (h : countOnes n = 1) (ha : a < 64) (hb : b < 64)
    (hna : n.toNat.testBit a = true) (hnb : n.toNat.testBit b = true) : a = b := by
  rw [countOnes, countP_eq_length_filter, length_eq_one_iff] at h
  obtain ⟨c, hc⟩ := h
  have hmem : ∀ k < 64, n.toNat.testBit k = true → k = c := fun k hk hbit => by
    rw [← mem_singleton, ← hc, mem_filter, mem_range]
    exact ⟨hk, hbit⟩
  rw [hmem a ha hna, hmem b hb hnb]

theorem countOnes_two_bits (ha : a < 64) (hb : b < 64) : countOnes (oneBit a ^^^ oneBit b) ≠ 1 := by
  have hbit : ∀ n, (oneBit a ^^^ oneBit b).toNat.testBit n = (decide (a = n) ^^ decide (b = n)) :=
    fun n => by rw [UInt64.toNat_xor, Nat.testBit_xor, testBit_oneBit ha, testBit_oneBit hb]
  by_cases hab : a = b
  · subst hab
    rw [UInt64.xor_self]
    decide
  · intro hone
    refine hab (eq_of_countOnes hone ha hb ?_ ?_)
    · rw [hbit]
      simp [Ne.symm hab]
    · rw [hbit]
      simp [hab]

/-! ## Sealed pages -/

namespace Page

theorem flip_flip {p : Page} : (p.flip pos).flip pos = p :=
  ext rfl flipAt_flipAt

section Sealed

variable (p : Page)

theorem verifyChecksum_updateChecksum : p.updateChecksum.verifyChecksum = true :=
  beq_self_eq_true _

/-- Cells that pass the checksum of a sealed page have the checksum of its cells. -/
theorem crc_eq_of_verifyChecksum {q : Page} (h : q.verifyChecksum = true)
    (hheader : q.header = p.updateChecksum.header) :
    crc32cScalar q.cells = crc32cScalar p.cells := by
  have hlt : ∀ c : BitVec 32, c.toNat < 2 ^ 64 := fun c => Nat.lt_of_lt_of_le c.isLt (by decide)
  rw [verifyChecksum, hheader, beq_iff_eq] at h
  have heq := congrArg UInt64.toNat h
  rw [UInt64.toNat_ofNat_of_lt' (hlt _)] at heq
  exact BitVec.eq_of_toNat_eq (heq.trans (UInt64.toNat_ofNat_of_lt' (hlt _)))

/-- The loop comes to the word with the flipped bit, and passes over the ones before it. -/
theorem tryWords_flip (hi : i < 32256) {ws : List Nat} (hws : ∀ w ∈ ws, w < 504)
    (hmem : i / 64 ∈ ws) :
    tryWords (i % 64 / 8) (1 <<< UInt8.ofNat (i % 64 % 8)) ws (p.updateChecksum.flip i) =
      (p.updateChecksum, true) := by
  induction ws with
  | nil => exact absurd hmem not_mem_nil
  | cons w ws ih =>
    have hw := hws w mem_cons_self
    have hflip : ∀ q : Page, q.xorByte (w * 8 + i % 64 / 8) (1 <<< UInt8.ofNat (i % 64 % 8)) =
        q.flip (w * 64 + i % 64) := fun q => by
      rw [flip, show (w * 64 + i % 64) / 8 = w * 8 + i % 64 / 8 by omega,
        show (w * 64 + i % 64) % 8 = i % 64 % 8 by omega]
    simp only [tryWords, hflip]
    by_cases hword : w = i / 64
    · rw [show w * 64 + i % 64 = i by omega, flip_flip, if_pos]
      exact verifyChecksum_updateChecksum p
    · have hwrong : ¬ ((p.updateChecksum.flip i).flip (w * 64 + i % 64)).verifyChecksum = true :=
        fun hright => crc32cScalar_flipAt_flipAt_ne p.length_cells hi (by omega) (by omega)
          (crc_eq_of_verifyChecksum p hright rfl)
      rw [if_neg hwrong, flip_flip]
      refine ih (forall_mem_cons.mp hws).2 ?_
      exact (mem_cons.mp hmem).resolve_left (Ne.symm hword)

theorem verifyAndCorrect_flip (hi : i < 32256) :
    (p.updateChecksum.flip i).verifyAndCorrect = (p.updateChecksum, .ok true) := by
  have hlen : p.cells.length = 4032 := p.length_cells
  have hwrong : ¬ (p.updateChecksum.flip i).verifyChecksum = true := fun hright =>
    crc32cScalar_flipAt_ne (show i < 8 * p.cells.length by omega)
      (crc_eq_of_verifyChecksum p hright rfl)
  have hsyndrome : (p.updateChecksum.flip i).header.parity ^^^
      computeParity (p.updateChecksum.flip i).cells = oneBit (i % 64) := by
    show computeParity p.cells ^^^ computeParity (flipAt p.cells i) = _
    rw [computeParity_flipAt (by omega) (by omega), ← UInt64.xor_assoc, UInt64.xor_self,
      UInt64.zero_xor]
  have hbit : i % 64 < 64 := Nat.mod_lt i (by decide)
  have hloop := tryWords_flip p hi (fun w hw => mem_range.mp hw)
    (mem_range.mpr (show i / 64 < 504 by omega))
  rw [verifyAndCorrect, if_neg hwrong]
  simp only [hsyndrome, countOnes_oneBit hbit, trailingZeros_oneBit hbit]
  rw [if_neg (by decide), (p.updateChecksum.flip i).length_cells, hloop]

theorem verifyAndCorrect_flip_flip {j : Nat} (hi : i < 32256) (hj : j < 32256) (hne : i ≠ j) :
    ∃ msg, ((p.updateChecksum.flip i).flip j).verifyAndCorrect =
      ((p.updateChecksum.flip i).flip j, .error msg) := by
  have hlen : p.cells.length = 4032 := p.length_cells
  have hwrong : ¬ ((p.updateChecksum.flip i).flip j).verifyChecksum = true := fun hright =>
    crc32cScalar_flipAt_flipAt_ne hlen hi hj hne (crc_eq_of_verifyChecksum p hright rfl)
  have hsyndrome : ((p.updateChecksum.flip i).flip j).header.parity ^^^
      computeParity ((p.updateChecksum.flip i).flip j).cells =
        oneBit (i % 64) ^^^ oneBit (j % 64) := by
    show computeParity p.cells ^^^ computeParity (flipAt (flipAt p.cells i) j) = _
    rw [computeParity_flipAt (by rw [length_flipAt]; omega) (by rw [length_flipAt]; omega),
      computeParity_flipAt (by omega) (by omega), UInt64.xor_assoc, ← UInt64.xor_assoc,
      UInt64.xor_self, UInt64.zero_xor]
  have hcount := countOnes_two_bits (Nat.mod_lt i (by decide : 0 < 64))
    (Nat.mod_lt j (by decide : 0 < 64))
  rw [verifyAndCorrect, if_neg hwrong]
  simp only [hsyndrome]
  rw [if_pos hcount]
  exact ⟨_, rfl⟩

end Sealed

/-- A flipped bit of a sealed page is corrected; two flipped bits are detected and left as they
are. -/
theorem verifyAndCorrect_flips (p : Page) :
    (∀ i < 32256, (p.updateChecksum.flip i).verifyAndCorrect = (p.updateChecksum, .ok true)) ∧
    ∀ i < 32256, ∀ j < 32256, i ≠ j → ∃ msg,
      ((p.updateChecksum.flip i).flip j).verifyAndCorrect =
        ((p.updateChecksum.flip i).flip j, .error msg) :=
  ⟨fun _ hi => verifyAndCorrect_flip p hi,
    fun _ hi _ hj hne => verifyAndCorrect_flip_flip p hi hj hne⟩

/-- The first and the last bit of an empty page. -/
theorem verifyAndCorrect_flips_new :
    (new.updateChecksum.flip 0).verifyAndCorrect = (new.updateChecksum, .ok true) ∧
    ∃ msg, ((new.updateChecksum.flip 0).flip 32255).verifyAndCorrect =
      ((new.updateChecksum.flip 0).flip 32255, .error msg) :=
  ⟨(verifyAndCorrect_flips new).1 0 (by decide),
    (verifyAndCorrect_flips new).2 0 (by decide) 32255 (by decide) (by decide)⟩

end Page

end TensorVault
