import Mathlib.Combinatorics.Colex
import Mathlib.Data.Finset.SymmDiff
import Mathlib.Data.Nat.Pairing
import TensorVault.Lib.Base64

/-!
# Salted challenge-response

The server keeps the hash of a client key, the client proves that it has the key by masking it with
a MAC of the messages exchanged, and the server takes the mask off and hashes what is left.
`Primitives.Ideal` are the assumptions; no function into digests of a fixed length is injective, so
digests are a type of their own. `free` is a model of the assumptions.
-/

namespace Scram

/-- The primitives, with digests `δ` and their representation as bytes. -/
structure Primitives (δ : Type) where
  /-- The password-based key derivation, from password, salt and iteration count. -/
  stretch : List UInt8 → List UInt8 → Nat → δ
  mac : δ → List UInt8 → δ
  hash : δ → δ
  xor : δ → δ → δ
  toBytes : δ → List UInt8
  ofBytes : List UInt8 → Option δ
  /-- How bytes are written in the messages. -/
  base64 : Base64.Codec

namespace Primitives

variable {δ : Type} (P : Primitives δ)

structure Ideal : Prop where
  xor_comm : ∀ a b, P.xor a b = P.xor b a
  xor_cancel : ∀ a b, P.xor (P.xor a b) b = a
  ofBytes_toBytes : ∀ d, P.ofBytes (P.toBytes d) = some d
  hash_injective : Function.Injective P.hash
  mac_key_injective : ∀ m, Function.Injective fun k => P.mac k m
  mac_injective : ∀ k, Function.Injective (P.mac k)
  stretch_injective : ∀ salt n, Function.Injective fun password => P.stretch password salt n
  /-- Two keys do not have the same proof for a message. -/
  proof_injective : ∀ m, Function.Injective fun key => P.xor key (P.mac (P.hash key) m)

/-- The proof of a client that has the key. -/
def proof (key : δ) (message : List UInt8) : δ := P.xor key (P.mac (P.hash key) message)

/-- The check of a server that keeps the hash of the key. -/
def Accepts (stored : δ) (message : List UInt8) (proof : δ) : Prop :=
  P.hash (P.xor proof (P.mac stored message)) = stored

variable {P}

namespace Ideal

variable (h : P.Ideal)

include h

theorem xor_left_cancel {a b c : δ} (heq : P.xor a b = P.xor a c) : b = c := by
  rw [h.xor_comm a b, h.xor_comm a c] at heq
  rw [← h.xor_cancel b a, heq, h.xor_cancel]

/-- The server accepts the proof of exactly the key whose hash it keeps. -/
theorem accepts_proof_iff {key key' : δ} {m : List UInt8} :
    P.Accepts (P.hash key) m (P.proof key' m) ↔ key' = key := by
  constructor
  · intro haccepts
    have hkey : P.xor (P.proof key' m) (P.mac (P.hash key) m) = key := h.hash_injective haccepts
    refine h.proof_injective m ?_
    change P.proof key' m = P.xor key (P.mac (P.hash key) m)
    rw [← h.xor_cancel (P.proof key' m) (P.mac (P.hash key) m), hkey]
  · rintro rfl
    unfold Accepts proof
    rw [h.xor_cancel]

/-- A proof is for one message. -/
theorem message_eq_of_accepts {stored proof : δ} {m m' : List UInt8}
    (hm : P.Accepts stored m proof) (hm' : P.Accepts stored m' proof) : m = m' := by
  have hhash : P.hash (P.xor proof (P.mac stored m)) = P.hash (P.xor proof (P.mac stored m')) :=
    hm.trans hm'.symm
  exact h.mac_injective stored (h.xor_left_cancel (h.hash_injective hhash))

end Ideal

end Primitives

/-! ## A model of the assumptions

Digests are finite sets of numbers with the symmetric difference. A MAC marks the key by odd
numbers and the message by one even number. -/

section

/-- A number for a byte string, in bijective base 256. -/
def code : List UInt8 → Nat
  | [] => 0
  | b :: bs => code bs * 256 + b.toNat + 1

theorem code_injective : Function.Injective code
  | [], [], _ => rfl
  | [], b :: bs, h => by simp only [code] at h; omega
  | b :: bs, [], h => by simp only [code] at h; omega
  | b :: bs, c :: cs, h => by
    simp only [code] at h
    have hb := b.toNat_lt
    have hc := c.toNat_lt
    have hrest : code bs = code cs := by omega
    have hbyte : b.toNat = c.toNat := by omega
    rw [code_injective hrest, UInt8.toNat_inj.mp hbyte]

/-- The numbers `2 * i + 1` for the key, and one even number for the message. -/
def freeMac (k : Finset Nat) (m : List UInt8) : Finset Nat :=
  insert (2 * code m) (k.image fun i => 2 * i + 1)

variable {m : List UInt8} {k : Finset Nat} {i : Nat}

theorem odd_mem_freeMac : 2 * i + 1 ∈ freeMac k m ↔ i ∈ k := by
  have hne : 2 * i + 1 ≠ 2 * code m := by omega
  simp [freeMac, hne]

theorem even_mem_freeMac : 2 * i ∈ freeMac k m ↔ i = code m := by
  have hne : ∀ j, 2 * j + 1 ≠ 2 * i := by omega
  simp [freeMac, hne]

theorem freeMac_key_injective (m : List UInt8) : Function.Injective fun k => freeMac k m := by
  intro k k' h
  ext i
  have hmem : 2 * i + 1 ∈ freeMac k m ↔ 2 * i + 1 ∈ freeMac k' m := by
    rw [show freeMac k m = freeMac k' m from h]
  rwa [odd_mem_freeMac, odd_mem_freeMac] at hmem

theorem freeMac_injective (k : Finset Nat) : Function.Injective (freeMac k) := by
  intro m m' h
  have hmem : 2 * code m ∈ freeMac k m' := h ▸ even_mem_freeMac.mpr rfl
  exact code_injective (even_mem_freeMac.mp hmem)

/-- Whether a number belongs to the key is decided by the proof and, at odd places, by a smaller
number. -/
theorem free_proof_injective (m : List UInt8) :
    Function.Injective fun k : Finset Nat => symmDiff k (freeMac k m) := by
  intro k k' h
  ext i
  induction i using Nat.strong_induction_on with
  | _ i ih =>
    have hmem : i ∈ symmDiff k (freeMac k m) ↔ i ∈ symmDiff k' (freeMac k' m) := by
      rw [show symmDiff k (freeMac k m) = symmDiff k' (freeMac k' m) from h]
    have hmac : i ∈ freeMac k m ↔ i ∈ freeMac k' m := by
      obtain ⟨j, rfl | rfl⟩ := i.even_or_odd'
      · rw [even_mem_freeMac, even_mem_freeMac]
      · rw [odd_mem_freeMac, odd_mem_freeMac]
        exact ih j (by omega)
    rw [Finset.mem_symmDiff, Finset.mem_symmDiff] at hmem
    tauto

/-- Digests as finite sets, written in unary. -/
def free : Primitives (Finset Nat) where
  stretch password salt n := {Nat.pair (code password) (Nat.pair (code salt) n)}
  mac := freeMac
  hash := id
  xor := symmDiff
  toBytes d := List.replicate (Finset.equivBitIndices.symm d) 0
  ofBytes bytes := some (Finset.equivBitIndices bytes.length)
  base64 := .standard

theorem free_ideal : free.Ideal where
  xor_comm := symmDiff_comm
  xor_cancel a b := symmDiff_symmDiff_cancel_right b a
  ofBytes_toBytes d := by
    simp only [free, List.length_replicate, Equiv.apply_symm_apply]
  hash_injective := Function.injective_id
  mac_key_injective := freeMac_key_injective
  mac_injective := freeMac_injective
  stretch_injective salt n := by
    intro p q h
    have hpair := Finset.singleton_injective h
    exact code_injective (Nat.pair_eq_pair.mp hpair).1
  proof_injective := free_proof_injective

end

end Scram
