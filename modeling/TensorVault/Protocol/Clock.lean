import Mathlib.Algebra.Group.Nat.Defs
import Mathlib.Logic.Relation
import TensorVault.Lib.Run

/-!
# Hybrid logical clocks

A clock keeps the last timestamp it issued. `now` takes the physical time if it has advanced and
counts otherwise; `observe` moves the clock past a timestamp received from another node.
`happensBefore_lt`: in every run of a cluster the timestamps follow causality, whatever the physical
clocks show.
-/

namespace TensorVault.Protocol

open List

/-! ## Timestamps -/

structure HlcTimestamp where
  physicalNs : UInt64
  logical : UInt64
  deriving DecidableEq, Repr

namespace HlcTimestamp

def zero : HlcTimestamp := { physicalNs := 0, logical := 0 }

/-- The derived order of the source. -/
instance : LT HlcTimestamp where
  lt a b := a.physicalNs < b.physicalNs ∨ (a.physicalNs = b.physicalNs ∧ a.logical < b.logical)

theorem lt_def {a b : HlcTimestamp} : a < b ↔
    a.physicalNs < b.physicalNs ∨ (a.physicalNs = b.physicalNs ∧ a.logical < b.logical) := Iff.rfl

instance (a b : HlcTimestamp) : Decidable (a < b) :=
  inferInstanceAs (Decidable (_ ∨ _))

protected theorem lt_trans {a b c : HlcTimestamp} (hab : a < b) (hbc : b < c) : a < c := by
  rw [lt_def] at hab hbc ⊢
  rcases hab with hab | ⟨hab, hab'⟩ <;> rcases hbc with hbc | ⟨hbc, hbc'⟩
  · exact .inl (UInt64.lt_trans hab hbc)
  · exact .inl (hbc ▸ hab)
  · exact .inl (hab ▸ hbc)
  · exact .inr ⟨hab.trans hbc, UInt64.lt_trans hab' hbc'⟩

end HlcTimestamp

/-! ## The clock -/

structure HlcClock where
  last : HlcTimestamp
  deriving DecidableEq, Repr

namespace HlcClock

def new : HlcClock := { last := .zero }

/-- `now`, with the reading of the physical clock. The timestamp it issues is the new `last`. -/
def now (c : HlcClock) (pt : UInt64) : HlcClock :=
  if c.last.physicalNs < pt then { last := { physicalNs := pt, logical := 0 } }
  else { last := { c.last with logical := c.last.logical + 1 } }

/-- `observe`. -/
def observe (c : HlcClock) (other : HlcTimestamp) : HlcClock :=
  if c.last.physicalNs < other.physicalNs then
    { last := { physicalNs := other.physicalNs, logical := other.logical + 1 } }
  else if other.physicalNs = c.last.physicalNs then
    { last := { c.last with logical := max c.last.logical other.logical + 1 } }
  else { last := { c.last with logical := c.last.logical + 1 } }

end HlcClock

/-- A counter that can be incremented. -/
def CanCount (n : UInt64) : Prop := n.toNat + 1 < 2 ^ 64

theorem lt_add_one {n : UInt64} (h : CanCount n) : n < n + 1 := by
  unfold CanCount at h
  rw [UInt64.lt_iff_toNat_lt, UInt64.toNat_add]
  simp only [UInt64.toNat_one]
  omega

theorem toNat_add_one_le {n : UInt64} : (n + 1).toNat ≤ n.toNat + 1 := by
  rw [UInt64.toNat_add]
  simp only [UInt64.toNat_one]
  omega

namespace HlcClock

variable {c : HlcClock} {pt : UInt64} {other : HlcTimestamp} {n : Nat}

/-- `now` issues a later timestamp. -/
theorem lt_now (h : CanCount c.last.logical) : c.last < (c.now pt).last := by
  unfold now
  split
  · next hpt => exact .inl hpt
  · exact .inr ⟨rfl, lt_add_one h⟩

theorem toNat_max (a b : UInt64) : (max a b).toNat = max a.toNat b.toNat := by
  have hmax : max a b = if a ≤ b then b else a := rfl
  rw [hmax]
  split
  · next h =>
    have := UInt64.le_iff_toNat_le.mp h
    omega
  · next h =>
    rw [UInt64.le_iff_toNat_le] at h
    omega

theorem lt_max_add_one {a b : UInt64} (ha : CanCount a) (hb : CanCount b) :
    a < max a b + 1 ∧ b < max a b + 1 := by
  unfold CanCount at ha hb
  simp only [UInt64.lt_iff_toNat_lt, UInt64.toNat_add, toNat_max, UInt64.toNat_one]
  omega

/-- `observe` issues a timestamp after the last one and after the one received. -/
theorem lt_observe (h : CanCount c.last.logical) (hother : CanCount other.logical) :
    c.last < (c.observe other).last ∧ other < (c.observe other).last := by
  unfold observe
  split
  · next hahead => exact ⟨.inl hahead, .inr ⟨rfl, lt_add_one hother⟩⟩
  · next hahead =>
    split
    · next hsame =>
      obtain ⟨hlast, hmax⟩ := lt_max_add_one h hother
      exact ⟨.inr ⟨rfl, hlast⟩, .inr ⟨hsame, hmax⟩⟩
    · next hne =>
      -- the message is from the past
      have hbehind : other.physicalNs < c.last.physicalNs := by
        rw [UInt64.lt_iff_toNat_lt] at hahead ⊢
        rw [← UInt64.toNat_inj] at hne
        omega
      exact ⟨.inr ⟨rfl, lt_add_one h⟩, .inl hbehind⟩

theorem logical_now_le (h : c.last.logical.toNat ≤ n) : (c.now pt).last.logical.toNat ≤ n + 1 := by
  unfold now
  split
  · exact Nat.zero_le _
  · exact toNat_add_one_le.trans (by omega)

theorem logical_observe_le (h : c.last.logical.toNat ≤ n)
    (hother : other.logical.toNat ≤ n) : (c.observe other).last.logical.toNat ≤ n + 1 := by
  unfold observe
  split
  · exact toNat_add_one_le.trans (by omega)
  · split
    · have hmax := toNat_max c.last.logical other.logical
      exact toNat_add_one_le.trans (by omega)
    · exact toNat_add_one_le.trans (by omega)

end HlcClock

/-! ## Runs of a cluster -/

/-- An event at a node: a reading of the physical clock, or the receipt of a message that carries
the timestamp of an earlier event. -/
inductive Event (ν : Type) where
  | now (node : ν) (pt : UInt64)
  | observe (node : ν) (sent : Nat)
  deriving DecidableEq, Repr

def Event.node {ν : Type} : Event ν → ν
  | .now node _ | .observe node _ => node

/-- The clocks of the nodes, and the timestamps issued so far, one for each event. -/
structure Cluster (ν : Type) where
  clocks : ν → HlcClock
  issued : List HlcTimestamp

namespace Cluster

variable {ν : Type} [DecidableEq ν]

def new : Cluster ν where
  clocks _ := .new
  issued := []

/-- The node goes on with this clock, whose last timestamp it has issued. -/
def set (s : Cluster ν) (node : ν) (c : HlcClock) : Cluster ν where
  clocks := Function.update s.clocks node c
  issued := s.issued ++ [c.last]

/-- One event; a message that was never sent is not received. -/
def step (s : Cluster ν) : Event ν → Option (Cluster ν)
  | .now node pt => some (s.set node ((s.clocks node).now pt))
  | .observe node sent => (s.issued[sent]?).map fun ts => s.set node ((s.clocks node).observe ts)

end Cluster

/-- One event directly follows another: at the same node, or as the receipt of its message. -/
def Direct {ν : Type} (events : List (Event ν)) (j k : Nat) : Prop :=
  ∃ e f, events[j]? = some e ∧ events[k]? = some f ∧ j < k ∧
    (e.node = f.node ∨ ∃ node, f = .observe node j)

/-- Causality. It does not mention timestamps. -/
def HappensBefore {ν : Type} (events : List (Event ν)) : Nat → Nat → Prop :=
  Relation.TransGen (Direct events)

/-- What holds of the timestamps after some events. -/
structure Cluster.Causal {ν : Type} (s : Cluster ν) (events : List (Event ν)) : Prop where
  length : s.issued.length = events.length
  /-- No counter is ahead of the number of events. -/
  clocks_le : ∀ i, (s.clocks i).last.logical.toNat ≤ events.length
  issued_le : ∀ ts ∈ s.issued, ts.logical.toNat ≤ events.length
  /-- A clock is not behind the timestamps its node has issued. -/
  last : ∀ (j : Nat) (e : Event ν) (ts : HlcTimestamp), events[j]? = some e →
    s.issued[j]? = some ts → ts = (s.clocks e.node).last ∨ ts < (s.clocks e.node).last
  direct : ∀ j k a b, Direct events j k → s.issued[j]? = some a → s.issued[k]? = some b → a < b

theorem Cluster.causal_new {ν : Type} : (Cluster.new : Cluster ν).Causal [] where
  length := rfl
  clocks_le _ := Nat.zero_le _
  issued_le _ h := by cases h
  last j e ts h := by cases h
  direct j k a b h := by
    obtain ⟨e, f, he, -⟩ := h
    cases he

/-- The entries of a list with one more. -/
theorem getElem?_concat_eq_some {α : Type} {xs : List α} {x y : α} {k : Nat}
    (h : (xs ++ [x])[k]? = some y) : xs[k]? = some y ∨ (k = xs.length ∧ y = x) := by
  rw [getElem?_append] at h
  split at h
  · exact .inl h
  · rw [getElem?_singleton] at h
    split at h
    · exact .inr ⟨by omega, (Option.some.inj h).symm⟩
    · cases h

section Causality

variable {ν : Type} [DecidableEq ν] {s : Cluster ν} {events : List (Event ν)}

omit [DecidableEq ν] in
/-- A timestamp of a node is before the next one of the node. -/
theorem Cluster.Causal.lt_of_node (h : s.Causal events) {e f : Event ν} {c : HlcClock}
    (hlast : (s.clocks f.node).last < c.last) {j : Nat} {ts : HlcTimestamp}
    (he : events[j]? = some e) (hts : s.issued[j]? = some ts) (hnode : e.node = f.node) :
    ts < c.last := by
  rcases h.last j e ts he hts with heq | hlt
  · rwa [heq, hnode]
  · exact HlcTimestamp.lt_trans (hnode ▸ hlt) hlast

variable {e : Event ν}

/-- An event that moves the clock of its node past its last timestamp, and past the timestamp it
received. -/
theorem Cluster.Causal.set (h : s.Causal events) {c : HlcClock}
    (hlast : (s.clocks e.node).last < c.last)
    (hsent : ∀ node sent ts, e = .observe node sent → s.issued[sent]? = some ts → ts < c.last)
    (hcount : c.last.logical.toNat ≤ events.length + 1) :
    (s.set e.node c).Causal (events ++ [e]) where
  length := by simp [Cluster.set, h.length]
  clocks_le i := by
    rw [length_append, length_singleton]
    by_cases hi : i = e.node
    · subst hi
      simpa [Cluster.set] using hcount
    · have := h.clocks_le i
      simp only [Cluster.set, Function.update_of_ne hi]
      omega
  issued_le ts hts := by
    rw [length_append, length_singleton]
    rcases mem_append.mp hts with hold | hnew
    · have := h.issued_le ts hold
      omega
    · rwa [mem_singleton.mp hnew]
  last j e' ts he' hts := by
    rcases getElem?_concat_eq_some he' with he' | ⟨hj, rfl⟩
    · have hlt : j < s.issued.length := h.length ▸ (List.getElem?_eq_some_iff.mp he').1
      have hts : s.issued[j]? = some ts := by
        rwa [Cluster.set, getElem?_append_left hlt] at hts
      by_cases hnode : e'.node = e.node
      · right
        simpa [Cluster.set, hnode] using h.lt_of_node hlast he' hts hnode
      · simpa [Cluster.set, Function.update_of_ne hnode] using h.last j e' ts he' hts
    · left
      rw [hj, ← h.length, Cluster.set, getElem?_concat_length] at hts
      simpa [Cluster.set] using (Option.some.inj hts).symm
  direct j k a b hdirect ha hb := by
    obtain ⟨d, f, hd, hf, hjk, hcause⟩ := hdirect
    -- the event that comes first is an old one in any case
    have hold : ∀ i x, (s.issued ++ [c.last])[i]? = some x → i < events.length →
        s.issued[i]? = some x := by
      intro i x hx hi
      rwa [getElem?_append_left (h.length ▸ hi)] at hx
    rcases getElem?_concat_eq_some hf with hf | ⟨rfl, rfl⟩
    · have hk := (List.getElem?_eq_some_iff.mp hf).1
      have hd : events[j]? = some d := by
        rwa [getElem?_append_left (hjk.trans hk)] at hd
      exact h.direct j k a b ⟨d, f, hd, hf, hjk, hcause⟩ (hold j a ha (hjk.trans hk))
        (hold k b hb hk)
    · rw [← h.length, Cluster.set, getElem?_concat_length, Option.some.injEq] at hb
      subst hb
      have hd : events[j]? = some d := by rwa [getElem?_append_left hjk] at hd
      rcases hcause with hnode | ⟨node, rfl⟩
      · exact h.lt_of_node hlast hd (hold j a ha hjk) hnode
      · exact hsent node j a rfl (hold j a ha hjk)

omit [DecidableEq ν] in
/-- After fewer than `2 ^ 64` events, the next one finds counters that it can increment. -/
theorem Cluster.Causal.canCount (h : s.Causal events) (hlen : events.length + 1 < 2 ^ 64) :
    (∀ i, CanCount (s.clocks i).last.logical) ∧ ∀ ts ∈ s.issued, CanCount ts.logical := by
  refine ⟨fun i => ?_, fun ts hts => ?_⟩
  · have := h.clocks_le i
    unfold CanCount
    omega
  · have := h.issued_le ts hts
    unfold CanCount
    omega

theorem Cluster.Causal.step (h : s.Causal events) (hlen : events.length + 1 < 2 ^ 64)
    {s' : Cluster ν} (hstep : s.step e = some s') : s'.Causal (events ++ [e]) := by
  obtain ⟨hclocks, hissued⟩ := h.canCount hlen
  cases e with
  | now node pt =>
    cases hstep
    refine h.set (e := .now node pt) (HlcClock.lt_now (hclocks node)) ?_
      (HlcClock.logical_now_le (h.clocks_le node))
    intro _ _ _ he
    cases he
  | observe node sent =>
    obtain ⟨ts, hts, rfl⟩ := Option.map_eq_some_iff.mp hstep
    have hmem := mem_of_getElem? hts
    obtain ⟨hlast, hother⟩ := HlcClock.lt_observe (hclocks node) (hissued ts hmem)
    refine h.set (e := .observe node sent) hlast ?_
      (HlcClock.logical_observe_le (h.clocks_le node) (h.issued_le ts hmem))
    intro _ _ ts' he hts'
    cases he
    cases hts.symm.trans hts'
    exact hother

omit [DecidableEq ν] in
theorem Cluster.Causal.exists_lt (h : s.Causal events) {j k : Nat} (hdirect : Direct events j k) :
    ∃ a b, s.issued[j]? = some a ∧ s.issued[k]? = some b ∧ a < b := by
  obtain ⟨d, f, hd, hf, -⟩ := id hdirect
  have hj : j < s.issued.length := h.length ▸ (List.getElem?_eq_some_iff.mp hd).1
  have hk : k < s.issued.length := h.length ▸ (List.getElem?_eq_some_iff.mp hf).1
  have ha := getElem?_eq_getElem hj
  have hb := getElem?_eq_getElem hk
  exact ⟨_, _, ha, hb, h.direct j k _ _ hdirect ha hb⟩

/-- The invariant holds along every run. -/
theorem causal_run
    (hrun : Run.run Cluster.step .new events = some s) (hlen : events.length < 2 ^ 64) :
    s.Causal events := by
  induction events using List.reverseRecOn generalizing s with
  | nil =>
    cases hrun
    exact Cluster.causal_new
  | append_singleton events e ih =>
    rw [Run.run_append] at hrun
    obtain ⟨u, hu, hlast⟩ := Option.bind_eq_some_iff.mp hrun
    obtain ⟨u', hstep, hnil⟩ := Run.run_cons hlast
    cases hnil
    rw [length_append, length_singleton] at hlen
    exact (ih hu (by omega)).step hlen hstep

/-- In every run of fewer than `2 ^ 64` events, an event that happens before another has the smaller
timestamp, and no event increments a counter that is at its end. -/
theorem happensBefore_lt (events : List (Event ν)) (s : Cluster ν)
    (hrun : Run.run Cluster.step .new events = some s) (hlen : events.length < 2 ^ 64) :
    (∀ j k, HappensBefore events j k → ∃ a b, s.issued[j]? = some a ∧
      s.issued[k]? = some b ∧ a < b) ∧
    ∀ pre e u, pre ++ [e] <+: events → Run.run Cluster.step .new pre = some u →
      (∀ i, CanCount (u.clocks i).last.logical) ∧ ∀ ts ∈ u.issued, CanCount ts.logical := by
  have hcausal := causal_run hrun hlen
  constructor
  · intro j k hbefore
    induction hbefore with
    | single hdirect => exact hcausal.exists_lt hdirect
    | tail _ hdirect ih =>
      obtain ⟨a, b, ha, hb, hab⟩ := ih
      obtain ⟨b', c, hb', hc, hbc⟩ := hcausal.exists_lt hdirect
      cases hb.symm.trans hb'
      exact ⟨a, c, ha, hc, HlcTimestamp.lt_trans hab hbc⟩
  · intro pre e u hpre hu
    have hle := hpre.length_le
    rw [length_append, length_singleton] at hle
    exact (causal_run hu (by omega)).canCount (by omega)

end Causality

/-- A message from a node whose clock is ahead to one whose clock is behind, and stalled. -/
def slowReceiver : List (Event Bool) := [.now false 100, .observe true 0, .now true 3]

theorem slowReceiver_causal : ∃ s : Cluster Bool, Run.run Cluster.step .new slowReceiver = some s ∧
    slowReceiver.length < 2 ^ 64 ∧
    ∃ a b, s.issued[0]? = some a ∧ s.issued[2]? = some b ∧ a < b := by
  have hbefore : HappensBefore slowReceiver 0 2 :=
    (Relation.TransGen.single ⟨_, _, rfl, rfl, by decide, .inr ⟨true, rfl⟩⟩ :
      HappensBefore slowReceiver 0 1).tail ⟨_, _, rfl, rfl, by decide, .inl rfl⟩
  have hlen : slowReceiver.length < 2 ^ 64 := by decide
  exact ⟨_, rfl, hlen, (happensBefore_lt slowReceiver _ rfl hlen).1 0 2 hbefore⟩

end TensorVault.Protocol
