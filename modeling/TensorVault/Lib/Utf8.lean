import Mathlib.Data.List.Infix

/-!
# Reading UTF-8 with replacement

A byte string is read as a sequence of characters and of runs that are not UTF-8 (`chunks`); a
character that is cut off at the end of the input is one run. `decode` refuses such runs, `lossy`
puts U+FFFD in their place. The main results are the round trip and what lossy reading makes of an
encoding that was cut off (`lossy_take_eq_iff`).
-/

namespace Utf8

open List

variable {c : Char} {cs : List Char}

def encode (cs : List Char) : List UInt8 := cs.flatMap String.utf8EncodeChar

/-- How many bytes follow a lead byte; `none` for a byte that leads nothing. -/
def following (b : Nat) : Option Nat :=
  if b < 0x80 then some 0
  else if 0xC2 ≤ b ∧ b ≤ 0xDF then some 1
  else if 0xE0 ≤ b ∧ b ≤ 0xEF then some 2
  else if 0xF0 ≤ b ∧ b ≤ 0xF4 then some 3
  else none

/-- The bits a lead byte contributes. -/
def leadBits (b : Nat) : Nat :=
  if b < 0xE0 then b % 32 else if b < 0xF0 then b % 16 else b % 8

def isContinuation (b : Nat) : Bool := 0x80 ≤ b && b ≤ 0xBF

/-- The byte after the lead byte. Its range keeps out overlong forms, surrogates and code points
past U+10FFFF. -/
def isSecond (lead b : Nat) : Bool :=
  if lead = 0xE0 then 0xA0 ≤ b && b ≤ 0xBF
  else if lead = 0xED then 0x80 ≤ b && b ≤ 0x9F
  else if lead = 0xF0 then 0x90 ≤ b && b ≤ 0xBF
  else if lead = 0xF4 then 0x80 ≤ b && b ≤ 0x8F
  else isContinuation b

/-- The remaining bytes of a character. -/
def continuation : Nat → Nat → List UInt8 → Option Char × List UInt8
  | 0, acc, bs => (some (Char.ofNat acc), bs)
  | _ + 1, _, [] => (none, [])
  | n + 1, acc, b :: bs =>
    if isContinuation b.toNat then continuation n (acc * 64 + b.toNat % 64) bs
    else (none, b :: bs)

/-- The first character, or the first run that is none, and the rest of the input. -/
def next (b : UInt8) (bs : List UInt8) : Option Char × List UInt8 :=
  match following b.toNat with
  | none => (none, bs)
  | some 0 => (some (Char.ofNat b.toNat), bs)
  | some (n + 1) =>
    match bs with
    | [] => (none, [])
    | c :: rest =>
      if isSecond b.toNat c.toNat then
        continuation n (leadBits b.toNat * 64 + c.toNat % 64) rest
      else (none, c :: rest)

def chunksLoop : Nat → List UInt8 → List (Option Char)
  | 0, _ => []
  | _ + 1, [] => []
  | fuel + 1, b :: bs => (next b bs).1 :: chunksLoop fuel (next b bs).2

/-- The characters of the input, `none` for a run that is not UTF-8. -/
def chunks (bs : List UInt8) : List (Option Char) := chunksLoop bs.length bs

/-- Strict reading. -/
def decode (bs : List UInt8) : Option (List Char) := (chunks bs).mapM id

def replacement : Char := Char.ofNat 0xFFFD

/-- Reading with replacement. -/
def lossy (bs : List UInt8) : List Char := (chunks bs).map (·.getD replacement)

/-! ## One character -/

theorem encode_cons :
    encode (c :: cs) = String.utf8EncodeChar c ++ encode cs := flatMap_cons

theorem encode_append {ds : List Char} : encode (cs ++ ds) = encode cs ++ encode ds :=
  flatMap_append

theorem toNat_byte {n : Nat} (h : n < 256) : (UInt8.ofNat n).toNat = n := by
  rw [UInt8.toNat_ofNat', Nat.mod_eq_of_lt h]

/-- A byte after the lead byte, with six bits of the code point. -/
def trail (y : Nat) : UInt8 := UInt8.ofNat (0x80 + y)

theorem toNat_trail {y : Nat} (h : y < 64) : (trail y).toNat = 0x80 + y := toNat_byte (by omega)

/-- The bytes of a character that is not ASCII, with its code point taken apart. -/
structure Encoded (c : Char) (b y : Nat) (ys : List Nat) : Prop where
  lead : 0x80 ≤ b ∧ b < 256
  second : y < 64 ∧ isSecond b (0x80 + y) = true
  trails : ∀ z ∈ ys, z < 64
  length : following b = some (ys.length + 1)
  code : 0x80 ≤ c.toNat ∧ c.toNat = ys.foldl (fun acc z => acc * 64 + z) (leadBits b * 64 + y)
  bytes : String.utf8EncodeChar c = UInt8.ofNat b :: trail y :: ys.map trail

theorem encoded_cases :
    (c.toNat < 0x80 ∧ String.utf8EncodeChar c = [UInt8.ofNat c.toNat]) ∨
      ∃ b y ys, Encoded c b y ys := by
  have hvalid : c.toNat < 0xD800 ∨ 0xDFFF < c.toNat ∧ c.toNat < 0x110000 := c.valid
  have hbytes : String.utf8EncodeChar c = _ := String.utf8EncodeChar.eq_1 c
  simp only [show c.val.toNat = c.toNat from rfl] at hbytes
  by_cases h1 : c.toNat ≤ 127
  · exact .inl ⟨by omega, hbytes.trans (if_pos h1)⟩
  rw [if_neg h1] at hbytes
  by_cases h2 : c.toNat ≤ 2047
  · rw [if_pos h2, show c.toNat / 64 % 32 + 192 = 0xC0 + c.toNat / 64 by omega,
      Nat.add_comm _ 128] at hbytes
    refine .inr ⟨0xC0 + c.toNat / 64, c.toNat % 64, [], by omega, ⟨by omega, ?_⟩, by simp, ?_,
      ⟨by omega, ?_⟩, hbytes⟩
    · unfold isSecond isContinuation
      split_ifs <;> simp <;> omega
    · rw [following, if_neg (by omega), if_pos (by omega)]
      rfl
    · rw [leadBits, if_pos (by omega), foldl_nil]
      omega
  rw [if_neg h2] at hbytes
  by_cases h3 : c.toNat ≤ 65535
  · rw [if_pos h3, show c.toNat / 4096 % 16 + 224 = 0xE0 + c.toNat / 4096 by omega,
      Nat.add_comm _ 128, Nat.add_comm _ 128] at hbytes
    refine .inr ⟨0xE0 + c.toNat / 4096, c.toNat / 64 % 64, [c.toNat % 64], by omega,
      ⟨by omega, ?_⟩, by simp; omega, ?_, ⟨by omega, ?_⟩, hbytes⟩
    · unfold isSecond isContinuation
      split_ifs <;> simp <;> omega
    · rw [following, if_neg (by omega), if_neg (by omega), if_pos (by omega)]
      rfl
    · rw [leadBits, if_neg (by omega), if_pos (by omega), foldl_cons, foldl_nil]
      omega
  · rw [if_neg h3, show c.toNat / 262144 % 8 + 240 = 0xF0 + c.toNat / 262144 by omega,
      Nat.add_comm _ 128, Nat.add_comm _ 128, Nat.add_comm _ 128] at hbytes
    refine .inr ⟨0xF0 + c.toNat / 262144, c.toNat / 4096 % 64, [c.toNat / 64 % 64, c.toNat % 64],
      by omega, ⟨by omega, ?_⟩, by simp; omega, ?_, ⟨by omega, ?_⟩, hbytes⟩
    · unfold isSecond isContinuation
      split_ifs <;> simp <;> omega
    · rw [following, if_neg (by omega), if_neg (by omega), if_neg (by omega), if_pos (by omega)]
      rfl
    · rw [leadBits, if_neg (by omega), if_neg (by omega), foldl_cons, foldl_cons, foldl_nil]
      omega

variable {bs : List UInt8} {acc : Nat} {rest : List UInt8} {ys : List Nat} {k : Nat}

theorem continuation_trail {n y : Nat} (h : y < 64) :
    continuation (n + 1) acc (trail y :: bs) = continuation n (acc * 64 + y) bs := by
  have hcont : isContinuation (0x80 + y) = true := by
    simp only [isContinuation, Bool.and_eq_true, decide_eq_true_eq]
    omega
  rw [continuation, toNat_trail h, if_pos hcont, show (0x80 + y) % 64 = y by omega]

theorem continuation_trails (h : ∀ z ∈ ys, z < 64) :
    continuation ys.length acc (ys.map trail ++ rest) =
      (some (Char.ofNat (ys.foldl (fun acc z => acc * 64 + z) acc)), rest) := by
  induction ys generalizing acc with
  | nil => rfl
  | cons z ys ih =>
    rw [map_cons, cons_append, length_cons, continuation_trail (h z mem_cons_self),
      ih (forall_mem_cons.mp h).2]
    rfl

theorem continuation_cut (h : ∀ z ∈ ys, z < 64) (hk : k < ys.length)
    (acc : Nat) : continuation ys.length acc ((ys.map trail).take k) = (none, []) := by
  induction ys generalizing acc k with
  | nil => cases hk
  | cons z ys ih =>
    cases k with
    | zero => rfl
    | succ k =>
      rw [map_cons, take_succ_cons, length_cons, continuation_trail (h z mem_cons_self)]
      exact ih (forall_mem_cons.mp h).2 (Nat.lt_of_succ_lt_succ hk) _

namespace Encoded

variable {b y : Nat} {ys : List Nat} (h : Encoded c b y ys)
include h

theorem next_nil : next (UInt8.ofNat b) [] = (none, []) := by
  unfold next
  rw [toNat_byte h.lead.2, h.length]

theorem next_cons (bs : List UInt8) : next (UInt8.ofNat b) (trail y :: bs) =
    continuation ys.length (leadBits b * 64 + y) bs := by
  have hy := h.second.1
  unfold next
  rw [toNat_byte h.lead.2, h.length]
  simp only [toNat_trail hy, h.second.2, if_true]
  rw [show (0x80 + y) % 64 = y by omega]

end Encoded

variable {t : List UInt8} {b : UInt8}

/-- The bytes of a character are read as this character. -/
theorem next_encodeChar (h : String.utf8EncodeChar c = b :: t) :
    next b (t ++ rest) = (some c, rest) := by
  rcases encoded_cases with ⟨hn, he⟩ | ⟨b', y, ys, he⟩
  · cases he.symm.trans h
    unfold next following
    rw [toNat_byte (by omega), if_pos hn]
    simp only [Char.ofNat_toNat, nil_append]
  · cases he.bytes.symm.trans h
    rw [cons_append, he.next_cons, continuation_trails he.trails, ← he.code.2, Char.ofNat_toNat]

/-- A character that is cut off is one run. -/
theorem next_cut (h : String.utf8EncodeChar c = b :: t) (hk : k < t.length) :
    next b (t.take k) = (none, []) := by
  rcases encoded_cases with ⟨hn, he⟩ | ⟨b', y, ys, he⟩
  · cases he.symm.trans h
    cases hk
  · cases he.bytes.symm.trans h
    cases k with
    | zero => exact he.next_nil
    | succ k =>
      rw [take_succ_cons, he.next_cons]
      exact continuation_cut he.trails (by simpa using hk) _

/-! ## Byte strings -/

theorem length_continuation (n acc : Nat) (bs : List UInt8) :
    (continuation n acc bs).2.length ≤ bs.length := by
  induction n generalizing acc bs with
  | zero => exact Nat.le_refl _
  | succ n ih =>
    cases bs with
    | nil => exact Nat.le_refl _
    | cons b bs =>
      rw [continuation]
      split
      · exact Nat.le_succ_of_le (ih _ bs)
      · exact Nat.le_refl _

theorem length_next (b : UInt8) (bs : List UInt8) : (next b bs).2.length ≤ bs.length := by
  unfold next
  split
  · exact Nat.le_refl _
  · exact Nat.le_refl _
  · split
    · exact Nat.le_refl _
    · split
      · exact Nat.le_succ_of_le (length_continuation _ _ _)
      · exact Nat.le_refl _

/-- Fuel for every byte is enough. -/
theorem chunksLoop_eq : ∀ {m n : Nat} {bs : List UInt8}, bs.length ≤ m → bs.length ≤ n →
    chunksLoop m bs = chunksLoop n bs
  | 0, 0, _, _, _ => rfl
  | 0, _ + 1, [], _, _ => rfl
  | _ + 1, 0, [], _, _ => rfl
  | _ + 1, _ + 1, [], _, _ => rfl
  | m + 1, n + 1, b :: bs, hm, hn => by
    have hnext := length_next b bs
    simp only [length_cons] at hm hn
    rw [chunksLoop, chunksLoop, chunksLoop_eq (m := m) (n := n) (by omega) (by omega)]

theorem chunks_nil : chunks [] = [] := rfl

theorem chunks_cons : chunks (b :: bs) = (next b bs).1 :: chunks (next b bs).2 := by
  have hnext := length_next b bs
  rw [chunks, length_cons, chunksLoop, chunks, chunksLoop_eq hnext (Nat.le_refl _)]

/-- The bytes of a character are never none. -/
theorem exists_encodeChar (c : Char) : ∃ b t, String.utf8EncodeChar c = b :: t := by
  rcases encoded_cases with ⟨-, he⟩ | ⟨b, y, ys, he⟩
  · exact ⟨_, _, he⟩
  · exact ⟨_, _, he.bytes⟩

theorem chunks_encode_append (cs : List Char) (bs : List UInt8) :
    chunks (encode cs ++ bs) = cs.map some ++ chunks bs := by
  induction cs with
  | nil => rfl
  | cons c cs ih =>
    obtain ⟨b, t, hc⟩ := exists_encodeChar c
    rw [encode_cons, hc, append_assoc, cons_append, chunks_cons, next_encodeChar hc, ih]
    rfl

/-- **Round trip.** -/
theorem decode_encode (cs : List Char) : decode (encode cs) = some cs := by
  have hchunks := chunks_encode_append cs []
  rw [append_nil, chunks_nil, append_nil] at hchunks
  rw [decode, hchunks, mapM_map]
  exact (mapM_pure (f := id)).trans (by rw [map_id]; rfl)

theorem lossy_encode_append (cs : List Char) (bs : List UInt8) :
    lossy (encode cs ++ bs) = cs ++ lossy bs := by
  have hmap : (cs.map some).map (·.getD replacement) = cs := by
    rw [map_map]
    exact map_id cs
  rw [lossy, chunks_encode_append, map_append, hmap]
  rfl

theorem lossy_encode : lossy (encode cs) = cs := by
  have happend := lossy_encode_append cs []
  rw [append_nil] at happend
  rw [happend, lossy, chunks_nil]
  simp

/-- A cut falls before or inside one of the characters. -/
theorem exists_cut : ∀ {cs : List Char} {k : Nat}, k < (encode cs).length →
    ∃ done c rest p, cs = done ++ c :: rest ∧ p < (String.utf8EncodeChar c).length ∧
      k = (encode done).length + p ∧
      (encode cs).take k = encode done ++ (String.utf8EncodeChar c).take p
  | [], k, h => by simp [encode] at h
  | c :: cs, k, h => by
    by_cases hk : k < (String.utf8EncodeChar c).length
    · refine ⟨[], c, cs, k, rfl, hk, by simp [encode], ?_⟩
      rw [encode_cons, take_append_of_le_length (Nat.le_of_lt hk)]
      rfl
    · rw [encode_cons, length_append] at h
      have hrest : k - (String.utf8EncodeChar c).length < (encode cs).length := by omega
      obtain ⟨done, d, rest, p, hcs, hp, hkp, htake⟩ := exists_cut hrest
      refine ⟨c :: done, d, rest, p, by rw [hcs]; rfl, hp, ?_, ?_⟩
      · rw [encode_cons, length_append]
        omega
      · rw [encode_cons, encode_cons, take_append, take_of_length_le (by omega), htake,
          append_assoc]

theorem lossy_cut {p : Nat} (hp : p < (String.utf8EncodeChar c).length) :
    lossy ((String.utf8EncodeChar c).take p) = if p = 0 then [] else [replacement] := by
  obtain ⟨b, t, hc⟩ := exists_encodeChar c
  rw [hc] at hp ⊢
  cases p with
  | zero => rfl
  | succ p =>
    rw [take_succ_cons, lossy, chunks_cons, next_cut hc (Nat.lt_of_succ_lt_succ hp)]
    rfl

theorem length_encode_replacement : (String.utf8EncodeChar replacement).length = 3 := by
  decide +kernel

/-- **What a cut leaves.** Lossy reading of a cut encoding gives back the whole text only where
the text ends in U+FFFD and the cut falls inside this last character. -/
theorem lossy_take_eq_iff (hk : k < (encode cs).length) :
    lossy ((encode cs).take k) = cs ↔
      cs.getLast? = some replacement ∧ (encode cs).length < k + 3 := by
  obtain ⟨done, c, rest, p, hcs, hp, hkp, htake⟩ := exists_cut hk
  rw [htake, lossy_encode_append, lossy_cut hp]
  have hlen : (encode cs).length =
      (encode done).length + ((String.utf8EncodeChar c).length + (encode rest).length) := by
    rw [hcs, encode_append, encode_cons, length_append, length_append]
  constructor
  · intro heq
    rw [hcs, append_cancel_left_eq] at heq
    split at heq
    · cases heq
    · next hpos =>
      cases heq
      rw [length_encode_replacement] at hlen
      refine ⟨by rw [hcs, getLast?_append_cons]; rfl, ?_⟩
      have hnil : (encode []).length = 0 := rfl
      omega
  · rintro ⟨hlast, hlt⟩
    -- A character after the one that is cut would be the last one, three bytes past the cut.
    rcases eq_nil_or_concat rest with rfl | ⟨front, d, rfl⟩
    · rw [hcs, getLast?_concat] at hlast
      cases hlast
      rw [length_encode_replacement] at hlen
      have hnil : (encode []).length = 0 := rfl
      rw [hcs, if_neg (by omega)]
    · rw [hcs, concat_eq_append, ← cons_append, ← append_assoc, getLast?_concat] at hlast
      cases hlast
      rw [concat_eq_append, encode_append, length_append, encode_cons, length_append,
        length_encode_replacement] at hlen
      omega

/-! ## ASCII -/

theorem encodeChar_ascii (h : c.toNat < 0x80) :
    String.utf8EncodeChar c = [UInt8.ofNat c.toNat] := by
  unfold String.utf8EncodeChar
  exact if_pos (show c.toNat ≤ 127 by omega)

/-- ASCII text has a byte for each character. -/
theorem encode_ascii (h : ∀ c ∈ cs, c.toNat < 0x80) :
    encode cs = cs.map fun c => UInt8.ofNat c.toNat := by
  induction cs with
  | nil => rfl
  | cons c cs ih =>
    rw [encode_cons, encodeChar_ascii (h c mem_cons_self), ih (forall_mem_cons.mp h).2]
    rfl

theorem length_encode_ascii (h : ∀ c ∈ cs, c.toNat < 0x80) : (encode cs).length = cs.length := by
  rw [encode_ascii h, length_map]

theorem take_encode_ascii (h : ∀ c ∈ cs, c.toNat < 0x80) :
    (encode cs).take k = encode (cs.take k) := by
  rw [encode_ascii h, encode_ascii fun c hc => h c (mem_of_mem_take hc), map_take]

theorem mem_encode_ascii (h : ∀ c ∈ cs, c.toNat < 0x80) {d : Char} (hd : d.toNat < 0x80) :
    UInt8.ofNat d.toNat ∈ encode cs ↔ d ∈ cs := by
  rw [encode_ascii h, mem_map]
  constructor
  · rintro ⟨c, hc, heq⟩
    have hnat := congrArg UInt8.toNat heq
    have hc' := h c hc
    rw [toNat_byte (by omega), toNat_byte (by omega)] at hnat
    rwa [← Char.toNat_inj.mp hnat]
  · exact fun hd => ⟨d, hd, rfl⟩

/-- A byte below 0x80 is a character of its own. -/
theorem toNat_eq_of_mem_encodeChar (h : b ∈ String.utf8EncodeChar c)
    (hb : b.toNat < 0x80) : c.toNat = b.toNat := by
  rcases encoded_cases with ⟨hc, henc⟩ | ⟨b', y, ys, henc⟩
  · rw [henc, mem_singleton] at h
    rw [h, toNat_byte (by omega)]
  · have htrail : ∀ z < 64, b ≠ trail z := by
      rintro z hz rfl
      rw [toNat_trail hz] at hb
      omega
    rw [henc.bytes] at h
    rcases mem_cons.mp h with rfl | h
    · rw [toNat_byte henc.lead.2] at hb
      exact absurd henc.lead.1 (by omega)
    rcases mem_cons.mp h with hy | h
    · exact absurd hy (htrail y henc.second.1)
    · obtain ⟨z, hz, heq⟩ := mem_map.mp h
      exact absurd heq.symm (htrail z (henc.trails z hz))

theorem length_encodeChar_pos (c : Char) : 0 < (String.utf8EncodeChar c).length := by
  obtain ⟨b, t, h⟩ := exists_encodeChar c
  simp [h]

theorem length_encodeChar_eq_one_iff (c : Char) :
    (String.utf8EncodeChar c).length = 1 ↔ c.toNat < 0x80 := by
  rcases encoded_cases with ⟨hc, henc⟩ | ⟨b, y, ys, henc⟩
  · exact iff_of_true (by rw [henc]; rfl) hc
  · have hlarge := henc.code.1
    rw [henc.bytes, length_cons, length_cons]
    omega

theorem length_le_length_encode (cs : List Char) : cs.length ≤ (encode cs).length := by
  induction cs with
  | nil => exact Nat.le_refl _
  | cons c cs ih =>
    have hpos := length_encodeChar_pos c
    rw [encode_cons, length_append, length_cons]
    omega

/-- Only ASCII text has as many bytes as characters. -/
theorem length_encode_eq_iff : (encode cs).length = cs.length ↔ ∀ c ∈ cs, c.toNat < 0x80 := by
  refine ⟨fun h => ?_, length_encode_ascii⟩
  induction cs with
  | nil => simp
  | cons c cs ih =>
    have hpos := length_encodeChar_pos c
    have hle := length_le_length_encode cs
    rw [encode_cons, length_append, length_cons] at h
    have hc := (length_encodeChar_eq_one_iff c).mp (by omega)
    exact forall_mem_cons.mpr ⟨hc, ih (by omega)⟩

theorem encode_injective : Function.Injective encode := by
  intro cs ds h
  have hdecode := decode_encode cs
  rw [h, decode_encode] at hdecode
  exact (Option.some.inj hdecode).symm

end Utf8
