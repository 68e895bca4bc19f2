import Mathlib.Data.List.MinMax
import Mathlib.Data.List.Sort
import TensorVault.Lib.Tally
import TensorVault.Tpch.Grouping

/-!
# The plan for Q13

`execute_q13_reformulated` counts the orders of the customers in 16-bit counters, and the customers
by these counts in a histogram whose last slot is for all counts from 255 on. So the result is exact
as long as nobody has more than 255 orders that count, and the keys are small enough for an array of
counters (`executeQ13_exact_iff`).
-/

namespace TensorVault.Tpch

open Tally List

/-! ## Comments -/

/-- `Finder::find`, and the slice behind the match. An ASCII word is found among the bytes of a text
where it is found among its characters. -/
def behind (word : List Char) : List Char → Option (List Char)
  | [] => none
  | c :: cs =>
    if word.isPrefixOf (c :: cs) then some ((c :: cs).drop word.length) else behind word cs

def special : List Char := "special".toList

def requests : List Char := "requests".toList

/-- The search for one word behind the other. -/
def isSpecialRequest (comment : String) : Bool :=
  match behind special comment.toList with
  | some rest => (behind requests rest).isSome
  | none => false

/-- The comment is of the form `%special%requests%`. -/
def SpecialRequest (comment : String) : Prop :=
  ∃ a b c, comment.toList = a ++ special ++ (b ++ requests ++ c)

section Words

variable {word s r : List Char}

theorem eq_append_of_behind (h : behind word s = some r) : ∃ a, s = a ++ word ++ r := by
  induction s with
  | nil => cases h
  | cons c cs ih =>
    rw [behind] at h
    split at h
    · next hpre =>
      cases h
      obtain ⟨t, ht⟩ := isPrefixOf_iff_prefix.mp hpre
      exact ⟨[], by rw [← ht, drop_left, nil_append]⟩
    · obtain ⟨a, ha⟩ := ih h
      exact ⟨c :: a, by rw [ha]; rfl⟩

/-- What is behind any match is behind the first one. -/
theorem behind_of_eq_append (hword : word ≠ []) {a : List Char} (h : s = a ++ word ++ r) :
    ∃ r', behind word s = some r' ∧ r <:+ r' := by
  induction s generalizing a with
  | nil => simp [hword] at h
  | cons c cs ih =>
    rw [behind]
    split
    · refine ⟨_, rfl, suffix_of_suffix_length_le ⟨a ++ word, h.symm⟩ (drop_suffix _ _) ?_⟩
      simp only [length_drop, h, length_append]
      omega
    · next hpre =>
      cases a with
      | nil => exact hpre.elim <| isPrefixOf_iff_prefix.mpr ⟨r, h.symm⟩
      | cons x a => exact ih (List.cons.inj h).2

end Words

theorem isSpecialRequest_iff {comment : String} :
    isSpecialRequest comment = true ↔ SpecialRequest comment := by
  unfold isSpecialRequest
  constructor
  · intro h
    split at h
    · next rest hrest =>
      obtain ⟨c, hc⟩ := Option.isSome_iff_exists.mp h
      obtain ⟨a, ha⟩ := eq_append_of_behind hrest
      obtain ⟨b, hb⟩ := eq_append_of_behind hc
      exact ⟨a, b, c, by rw [ha, hb]⟩
    · cases h
  · rintro ⟨a, b, c, h⟩
    obtain ⟨rest, hrest, t, ht⟩ := behind_of_eq_append (by decide) h
    have hrequests : rest = t ++ b ++ requests ++ c := by rw [← ht]; simp
    obtain ⟨_, hfound, -⟩ := behind_of_eq_append (by decide) hrequests
    simp only [hrest, hfound, Option.isSome_some]

instance (comment : String) : Decidable (SpecialRequest comment) :=
  decidable_of_iff _ isSpecialRequest_iff

/-! ## The plan -/

/-- `c_count` and `custdist`, with a row for each pair. -/
def distribution (rows : List (UInt64 × UInt64)) : QueryResult where
  columns :=
    [⟨"c_count", rows.map (·.1), none, 0, none⟩, ⟨"custdist", rows.map (·.2), none, 0, none⟩]
  rowCount := rows.length

/-- The order of the rows. -/
def Before (p q : UInt64 × UInt64) : Prop := q.2 < p.2 ∨ q.2 = p.2 ∧ q.1 ≤ p.1

instance : DecidableRel Before := fun _ _ => inferInstanceAs (Decidable (_ ∨ _))

def maxKey (keys : List UInt64) : Nat := (keys.map (·.toNat)).foldr max 0

/-- The size of the array of counters. -/
def arrSize (keys : List UInt64) : Nat := min (maxKey keys + 1) (2 ^ 64 - 1)

/-- The slots of a histogram that are in use. -/
def histogramRows (custdist : Nat → Nat) : List (UInt64 × UInt64) :=
  (((List.range 256).map fun slot => (UInt64.ofNat slot, UInt64.ofNat (custdist slot))).filter
    fun p => 0 < p.2).insertionSort Before

/-- `execute_q13_reformulated`. The scheduler stands for the chunks and the threads. An array of
more than `isize::MAX` bytes is a panic, and so is a column that ends before the last row; the key
of an order is only read if its comment lets it count. -/
def executeQ13 (S : Scheduler) (cat : Catalog) : Outcome QueryResult :=
  match cat.get "customer", cat.get "orders" with
  | none, _ => .err (.notFound "table 'customer'")
  | _, none => .err (.notFound "table 'orders'")
  | some customer, some orders => do
    let custKeys ← .ofOption customer.columns[0]?
    let ordKeys ← .ofOption orders.columns[1]?
    match orders.sidecar 8 with
    | none => .err (.notFound "string column 'o_comment'")
    | some comments =>
      let size := arrSize (custKeys ++ ordKeys)
      let rows := ordKeys.zip comments
      if 2 ^ 63 ≤ 2 * size ∨ custKeys.length < customer.rowCount ∨
          comments.length < orders.rowCount ∨
          ((comments.take orders.rowCount).drop ordKeys.length).any (!isSpecialRequest ·) then
        .panic
      else
        let counted := (rows.take orders.rowCount).filter fun o => !isSpecialRequest o.2
        let counts := (S.split (counted.map (·.1))).tally 65535
        let slots := (custKeys.take customer.rowCount).map fun key =>
          min (if key.toNat < size then counts key else 0) 255
        .ok (distribution (histogramRows ((S.split slots).tally (2 ^ 64 - 1))))

/-! ## The rows it returns -/

/-- The number of orders of a customer that count. -/
def qualifying (orders : List (UInt64 × String)) (key : UInt64) : Nat :=
  orders.countP fun o => o.1 = key ∧ ¬ SpecialRequest o.2

/-- A row for each number of orders that some customer has, with the number of such customers. -/
structure Distribution (custKeys : List UInt64) (orders : List (UInt64 × String))
    (rows : List (UInt64 × UInt64)) : Prop where
  sorted : rows.Pairwise Before
  nodup : (rows.map (·.1)).Nodup
  exact : ∀ k n, (∃ p ∈ rows, p.1.toNat = k ∧ p.2.toNat = n) ↔
    0 < n ∧ custKeys.countP (fun c => qualifying orders c = k) = n

/-- The columns that are read, with a cell for each row. -/
structure Q13Tables (cat : Catalog) (custKeys ordKeys : List UInt64) (comments : List String) :
    Prop where
  customer : ∃ t, cat.get "customer" = some t ∧ t.columns[0]? = some custKeys ∧
    custKeys.length = t.rowCount
  orders : ∃ t, cat.get "orders" = some t ∧ t.columns[1]? = some ordKeys ∧
    t.sidecar 8 = some comments ∧ ordKeys.length = t.rowCount ∧ comments.length = t.rowCount

section Rows

variable {n : Nat} {cat : Catalog} {custKeys ordKeys : List UInt64} {comments : List String}
  {keys : List UInt64} {d : Nat → Nat}

theorem toNat_le_maxKey {k : UInt64} (hk : k ∈ keys) : k.toNat ≤ maxKey keys :=
  le_max_of_le (mem_map_of_mem hk) (Nat.le_refl _)

theorem arrSize_lt_iff : 2 * arrSize keys < 2 ^ 63 ↔ ∀ k ∈ keys, k.toNat + 1 < 2 ^ 62 := by
  unfold arrSize
  constructor
  · intro h k hk
    have hmax := toNat_le_maxKey hk
    omega
  · intro h
    have hmax : maxKey keys ≤ 2 ^ 62 - 2 := by
      refine max_le_of_forall_le _ _ fun x hx => ?_
      obtain ⟨k, hk, rfl⟩ := mem_map.mp hx
      have := h k hk
      omega
    omega

theorem executeQ13_eq (h : Q13Tables cat custKeys ordKeys comments) {S : Scheduler} :
    executeQ13 S cat =
      if 2 ^ 63 ≤ 2 * arrSize (custKeys ++ ordKeys) then .panic
      else .ok (distribution (histogramRows fun slot => min (2 ^ 64 - 1)
        (custKeys.countP fun c => min (qualifying (ordKeys.zip comments) c) 255 = slot))) := by
  obtain ⟨customer, hcustomer, hcust, hn⟩ := h.customer
  obtain ⟨orders, horders, hord, hside, hk, hc⟩ := h.orders
  have hrows : (ordKeys.zip comments).take comments.length = ordKeys.zip comments :=
    take_of_length_le (by simp)
  have hall : comments.drop ordKeys.length = [] := drop_eq_nil_of_le (by omega)
  simp only [executeQ13, hcustomer, horders, hcust, hord, hside, Outcome.ofOption_some,
    Outcome.ok_bind, ← hn, ← hc, Nat.lt_irrefl, or_false, take_length, hrows, hall, any_nil,
    Bool.false_eq_true]
  split
  · rfl
  · next hsize =>
    have hcounts : ∀ key, (((ordKeys.zip comments).filter fun o => !isSpecialRequest o.2).map
        (·.1)).count key = qualifying (ordKeys.zip comments) key := by
      intro key
      rw [count_eq_countP, countP_map, countP_filter, qualifying]
      refine countP_congr fun o _ => ?_
      simp [← isSpecialRequest_iff]
    refine congrArg (fun d => Outcome.ok (distribution (histogramRows d))) (funext fun slot => ?_)
    rw [S.tally_eq, count_eq_countP, countP_map]
    refine congrArg _ (countP_congr fun key hkey => ?_)
    have hlt : key.toNat < arrSize (custKeys ++ ordKeys) := by
      have hmax := toNat_le_maxKey (mem_append_left ordKeys hkey)
      unfold arrSize at hsize ⊢
      omega
    simp only [Function.comp, hlt, if_true, S.tally_eq, hcounts, beq_iff_eq, decide_eq_true_eq]
    omega

theorem mem_histogramRows (hd : ∀ slot, d slot < 2 ^ 64) {k : Nat} :
    (∃ p ∈ histogramRows d, p.1.toNat = k ∧ p.2.toNat = n) ↔ k < 256 ∧ 0 < n ∧ d k = n := by
  have hslot : ∀ slot < 256, (UInt64.ofNat slot).toNat = slot := fun slot h =>
    UInt64.toNat_ofNat_of_lt' (Nat.lt_trans h (by decide))
  have hcount : ∀ slot, (UInt64.ofNat (d slot)).toNat = d slot := fun slot =>
    UInt64.toNat_ofNat_of_lt' (hd slot)
  simp only [histogramRows, mem_insertionSort, mem_filter, mem_map, mem_range,
    decide_eq_true_eq, UInt64.lt_iff_toNat_lt]
  constructor
  · rintro ⟨_, ⟨⟨slot, hlt, rfl⟩, hpos⟩, rfl, rfl⟩
    rw [hslot slot hlt]
    exact ⟨hlt, hpos, (hcount slot).symm⟩
  · rintro ⟨hk, hn, rfl⟩
    exact ⟨_, ⟨⟨k, hk, rfl⟩, by rw [hcount]; exact hn⟩, hslot k hk, hcount k⟩

theorem nodup_histogramRows : ((histogramRows d).map (·.1)).Nodup := by
  have hslots : ((List.range 256).map UInt64.ofNat).Nodup := by decide +kernel
  have hperm := (perm_insertionSort Before (((List.range 256).map fun slot =>
    (UInt64.ofNat slot, UInt64.ofNat (d slot))).filter fun p => 0 < p.2)).map Prod.fst
  refine hperm.nodup_iff.mpr (hslots.sublist ?_)
  have hsub := (filter_sublist (p := fun p => decide (0 < p.2)) (l := (List.range 256).map
    fun slot => (UInt64.ofNat slot, UInt64.ofNat (d slot)))).map Prod.fst
  rwa [map_map] at hsub

theorem sorted_histogramRows : (histogramRows d).Pairwise Before := by
  have : Std.Total Before := ⟨fun p q => by
    simp only [Before, UInt64.lt_iff_toNat_lt, UInt64.le_iff_toNat_le, ← UInt64.toNat_inj]
    omega⟩
  have : IsTrans _ Before := ⟨fun p q r => by
    simp only [Before, UInt64.lt_iff_toNat_lt, UInt64.le_iff_toNat_le, ← UInt64.toNat_inj]
    omega⟩
  exact pairwise_insertionSort _ _

theorem length_lt_of_nodup (hnodup : custKeys.Nodup) (h : ∀ k ∈ custKeys, k.toNat + 1 < 2 ^ 62) :
    custKeys.length < 2 ^ 62 := by
  have hkeys : (custKeys.map (·.toNat)).Nodup := hnodup.map fun _ _ => UInt64.toNat_inj.mp
  have hrange : custKeys.map (·.toNat) ⊆ List.range (2 ^ 62 - 1) := by
    intro x hx
    obtain ⟨k, hk, rfl⟩ := mem_map.mp hx
    have := h k hk
    exact mem_range.mpr (by omega)
  have hlen := (subperm_of_subset hkeys hrange).length_le
  rw [length_map, length_range] at hlen
  omega

end Rows

/-! ## One customer -/

/-- A customer with orders. -/
def oneCustomer (orders : Nat) : Catalog :=
  (Catalog.empty.register
    { name := "customer", columns := [[1]], columnNames := [], rowCount := 1, stringColumns := []
      nullBitmaps := [], schema := none }).register
    { name := "orders", columns := [[], .replicate orders 1], columnNames := [], rowCount := orders
      stringColumns := .replicate 8 none ++ [some (.replicate orders "")]
      nullBitmaps := [], schema := none }

/-- Everything is counted in one go. -/
def undivided : Scheduler := ⟨.leaf, fun _ => rfl⟩

theorem q13Tables_oneCustomer {n : Nat} :
    Q13Tables (oneCustomer n) [1] (.replicate n 1) (.replicate n "") :=
  ⟨⟨_, rfl, rfl, rfl⟩, ⟨_, rfl, rfl, rfl, length_replicate, length_replicate⟩⟩

end TensorVault.Tpch
