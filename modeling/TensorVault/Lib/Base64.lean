import Mathlib.Data.List.Infix

/-!
# Base64 with padding

The standard alphabet; `decode` is strict. `Codec` is what may be assumed of an implementation, and
`Codec.standard` is one. An encoding that was cut off (`decode_take`) decodes to a
shorter byte string at a multiple of four characters, and anywhere else it does not decode.
-/

namespace Base64

open List

/-- The character of a six-bit value. -/
def char (n : Nat) : Char :=
  if n < 26 then Char.ofNat (0x41 + n)
  else if n < 52 then Char.ofNat (0x61 + (n - 26))
  else if n < 62 then Char.ofNat (0x30 + (n - 52))
  else if n = 62 then '+'
  else '/'

/-- The six-bit value of a character of the alphabet. -/
def value (c : Char) : Option Nat :=
  if 0x41 ≤ c.toNat ∧ c.toNat ≤ 0x5A then some (c.toNat - 0x41)
  else if 0x61 ≤ c.toNat ∧ c.toNat ≤ 0x7A then some (c.toNat - 0x61 + 26)
  else if 0x30 ≤ c.toNat ∧ c.toNat ≤ 0x39 then some (c.toNat - 0x30 + 52)
  else if c = '+' then some 62
  else if c = '/' then some 63
  else none

/-- The characters an encoding is made of. -/
def isBase64 (c : Char) : Bool := (value c).isSome || c == '='

theorem value_char : ∀ n < 64, value (char n) = some n := by decide

theorem char_ne_pad : ∀ n < 64, char n ≠ '=' := by decide

variable {n : Nat}

theorem isBase64_char (h : n < 64) : isBase64 (char n) = true := by
  rw [isBase64, value_char n h]
  rfl

def encode : List UInt8 → List Char
  | [] => []
  | [a] => [char (a.toNat / 4), char (a.toNat % 4 * 16), '=', '=']
  | [a, b] =>
    [char (a.toNat / 4), char (a.toNat % 4 * 16 + b.toNat / 16), char (b.toNat % 16 * 4), '=']
  | a :: b :: c :: rest =>
    char (a.toNat / 4) :: char (a.toNat % 4 * 16 + b.toNat / 16) ::
      char (b.toNat % 16 * 4 + c.toNat / 64) :: char (c.toNat % 64) :: encode rest

/-- A group without padding. -/
def decodeQuad (a b c d : Char) : Option (List UInt8) :=
  match value a, value b, value c, value d with
  | some x, some y, some z, some w =>
    some [UInt8.ofNat (x * 4 + y / 16), UInt8.ofNat (y % 16 * 16 + z / 4),
      UInt8.ofNat (z % 4 * 64 + w)]
  | _, _, _, _ => none

/-- The last group, where padding may stand. -/
def decodeLast (a b c d : Char) : Option (List UInt8) :=
  if d = '=' then
    if c = '=' then
      match value a, value b with
      | some x, some y => if y % 16 = 0 then some [UInt8.ofNat (x * 4 + y / 16)] else none
      | _, _ => none
    else
      match value a, value b, value c with
      | some x, some y, some z =>
        if z % 4 = 0 then
          some [UInt8.ofNat (x * 4 + y / 16), UInt8.ofNat (y % 16 * 16 + z / 4)]
        else none
      | _, _, _ => none
  else decodeQuad a b c d

def decode : List Char → Option (List UInt8)
  | [] => some []
  | a :: b :: c :: d :: rest =>
    if rest.isEmpty then decodeLast a b c d
    else (decodeQuad a b c d).bind fun bytes => (decode rest).map (bytes ++ ·)
  | _ => none

/-! ## Groups -/

variable {a : UInt8}

/-- A byte is not changed by being put together from its parts. -/
theorem ofNat_eq (h : n = a.toNat) : UInt8.ofNat n = a := by
  rw [h, UInt8.ofNat_toNat]

theorem decode_four {a b c d : Char} : decode [a, b, c, d] = decodeLast a b c d := rfl

/-- A full group in front decodes to its three bytes, whatever follows. -/
theorem decode_group {a b c : UInt8} {rest : List Char} :
    decode (char (a.toNat / 4) :: char (a.toNat % 4 * 16 + b.toNat / 16) ::
      char (b.toNat % 16 * 4 + c.toNat / 64) :: char (c.toNat % 64) :: rest) =
      (decode rest).map ([a, b, c] ++ ·) := by
  have ha := a.toNat_lt
  have hb := b.toNat_lt
  have hc := c.toNat_lt
  have hquad : decodeQuad (char (a.toNat / 4)) (char (a.toNat % 4 * 16 + b.toNat / 16))
      (char (b.toNat % 16 * 4 + c.toNat / 64)) (char (c.toNat % 64)) = some [a, b, c] := by
    unfold decodeQuad
    rw [value_char _ (by omega), value_char _ (by omega), value_char _ (by omega),
      value_char _ (by omega)]
    simp only
    rw [ofNat_eq (a := a) (by omega), ofNat_eq (a := b) (by omega), ofNat_eq (a := c) (by omega)]
  cases rest with
  | nil =>
    rw [decode_four, decodeLast, if_neg (char_ne_pad _ (by omega)), hquad]
    rfl
  | cons d rest =>
    rw [decode, if_neg (by simp), hquad]
    rfl

theorem decode_pair {a b : UInt8} :
    decode [char (a.toNat / 4), char (a.toNat % 4 * 16 + b.toNat / 16),
      char (b.toNat % 16 * 4), '='] = some [a, b] := by
  have ha := a.toNat_lt
  have hb := b.toNat_lt
  rw [decode_four, decodeLast, if_pos rfl, if_neg (char_ne_pad _ (by omega)),
    value_char _ (by omega), value_char _ (by omega), value_char _ (by omega)]
  simp only
  rw [if_pos (by omega), ofNat_eq (a := a) (by omega), ofNat_eq (a := b) (by omega)]

theorem decode_single :
    decode [char (a.toNat / 4), char (a.toNat % 4 * 16), '=', '='] = some [a] := by
  have ha := a.toNat_lt
  rw [decode_four, decodeLast, if_pos rfl, if_pos rfl, value_char _ (by omega),
    value_char _ (by omega)]
  simp only
  rw [if_pos (by omega), ofNat_eq (a := a) (by omega)]

/-! ## Whole encodings -/

/-- **Round trip.** -/
theorem decode_encode : ∀ bytes : List UInt8, decode (encode bytes) = some bytes
  | [] => rfl
  | [a] => decode_single
  | [a, b] => decode_pair
  | a :: b :: c :: rest => by
    rw [encode, decode_group, decode_encode rest]
    rfl

theorem length_encode : ∀ bytes : List UInt8,
    (encode bytes).length = 4 * ((bytes.length + 2) / 3)
  | [] => rfl
  | [_] => by simp [encode]
  | [_, _] => by simp [encode]
  | a :: b :: c :: rest => by
    rw [encode]
    simp only [length_cons, length_encode rest]
    omega

theorem isBase64_of_mem_encode : ∀ {bytes : List UInt8}, ∀ x ∈ encode bytes, isBase64 x = true
  | [], x, hx => by simp [encode] at hx
  | [a], x, hx => by
    have ha := a.toNat_lt
    simp only [encode, mem_cons, not_mem_nil, or_false] at hx
    rcases hx with rfl | rfl | rfl | rfl
    · exact isBase64_char (by omega)
    · exact isBase64_char (by omega)
    · rfl
    · rfl
  | [a, b], x, hx => by
    have ha := a.toNat_lt
    have hb := b.toNat_lt
    simp only [encode, mem_cons, not_mem_nil, or_false] at hx
    rcases hx with rfl | rfl | rfl | rfl
    · exact isBase64_char (by omega)
    · exact isBase64_char (by omega)
    · exact isBase64_char (by omega)
    · rfl
  | a :: b :: c :: rest, x, hx => by
    have ha := a.toNat_lt
    have hb := b.toNat_lt
    have hc := c.toNat_lt
    simp only [encode, mem_cons] at hx
    rcases hx with rfl | rfl | rfl | rfl | hx
    · exact isBase64_char (by omega)
    · exact isBase64_char (by omega)
    · exact isBase64_char (by omega)
    · exact isBase64_char (by omega)
    · exact isBase64_of_mem_encode x hx

theorem decode_eq_none_of_length :
    ∀ {cs : List Char}, cs.length % 4 ≠ 0 → decode cs = none
  | [], h => absurd rfl h
  | [_], _ => rfl
  | [_, _], _ => rfl
  | [_, _, _], _ => rfl
  | a :: b :: c :: d :: rest, h => by
    have hrest : rest.length % 4 ≠ 0 := by
      simp only [length_cons] at h
      omega
    have hne : ¬ rest.isEmpty = true := by
      intro hnil
      rw [List.isEmpty_iff.mp hnil] at hrest
      exact hrest rfl
    rw [decode, if_neg hne, decode_eq_none_of_length hrest]
    cases decodeQuad a b c d <;> rfl

/-- The groups in front of the cut. -/
theorem decode_take_groups : ∀ (bytes : List UInt8) (k : Nat), 4 * k < (encode bytes).length →
    decode ((encode bytes).take (4 * k)) = some (bytes.take (3 * k))
  | _, 0, _ => by simp [decode]
  | [], k + 1, h => by simp [encode] at h
  | [a], k + 1, h => by
    simp only [encode, length_cons, length_nil] at h
    omega
  | [a, b], k + 1, h => by
    simp only [encode, length_cons, length_nil] at h
    omega
  | a :: b :: c :: rest, k + 1, h => by
    have hrest : 4 * k < (encode rest).length := by
      simp only [encode, length_cons] at h
      omega
    rw [encode, show 4 * (k + 1) = 4 * k + 4 from rfl, show 3 * (k + 1) = 3 * k + 3 from rfl]
    simp only [take_succ_cons]
    rw [decode_group, decode_take_groups rest k hrest]
    rfl

/-- **What a cut leaves.** A part of an encoding that is cut off after whole groups decodes to
the bytes of these groups; any other part does not decode. -/
theorem decode_take (bytes : List UInt8) (k : Nat) (hk : k < (encode bytes).length) :
    decode ((encode bytes).take k) =
      if k % 4 = 0 then some (bytes.take (3 * (k / 4))) else none := by
  split
  · next hmod =>
    have hgroups : k = 4 * (k / 4) := by omega
    rw [hgroups] at hk
    have hdecode := decode_take_groups bytes (k / 4) hk
    rw [← hgroups] at hdecode
    exact hdecode
  · next hmod =>
    refine decode_eq_none_of_length ?_
    rw [length_take, Nat.min_eq_left (Nat.le_of_lt hk)]
    exact hmod

/-! ## Codecs -/

/-- An encoder and a decoder of the standard alphabet with padding. -/
structure Codec where
  encode : List UInt8 → List Char
  decode : List Char → Option (List UInt8)
  /-- Decoding undoes encoding. -/
  decode_encode : ∀ bytes, decode (encode bytes) = some bytes
  /-- Padding fills the last group of four. -/
  length_encode : ∀ bytes, (encode bytes).length = 4 * ((bytes.length + 2) / 3)
  /-- The alphabet is `A`-`Z`, `a`-`z`, `0`-`9`, `+`, `/` and the padding `=`. -/
  alphabet : ∀ bytes, ∀ c ∈ encode bytes, isBase64 c = true
  /-- Whole groups decode on their own, and padding is required. -/
  decode_take : ∀ bytes k, k < (encode bytes).length → decode ((encode bytes).take k) =
    if k % 4 = 0 then some (bytes.take (3 * (k / 4))) else none

def Codec.standard : Codec where
  encode := Base64.encode
  decode := Base64.decode
  decode_encode := Base64.decode_encode
  length_encode := Base64.length_encode
  alphabet := fun _ => isBase64_of_mem_encode
  decode_take := Base64.decode_take

end Base64
