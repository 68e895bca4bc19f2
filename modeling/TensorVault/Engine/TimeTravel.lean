import TensorVault.Engine.Temporal

/-!
# Reading the versions of a system-versioned table

* `queryAsOf_run` — at every point in time, the rows that were current after the last call made up
  to then, also with several calls at the same time
* `queryBetween_exact_iff` — `query_between` looks only at the history: it has the versions of the
  interval exactly if no row of the interval is still current, and no version ends where the
  interval starts
-/

namespace TensorVault

open List

/-! ## Calls -/

namespace TemporalTable

/-- The loop of `update`: the first row that the predicate holds for is replaced. -/
def replaceFirst (now : UInt64) (predicate : List UInt64 → Bool) (newValues : List UInt64) :
    List (List UInt64 × UInt64) → Option (List (List UInt64 × UInt64) × HistoryRow)
  | [] => none
  | (values, validFrom) :: rows =>
    if predicate values then some ((newValues, now) :: rows, { values, validFrom, validTo := now })
    else
      match replaceFirst now predicate newValues rows with
      | some (rows', old) => some ((values, validFrom) :: rows', old)
      | none => none

/-- `update` with any predicate. -/
def updateBy (t : TemporalTable) (now : UInt64) (predicate : List UInt64 → Bool)
    (newValues : List UInt64) : TemporalTable :=
  match replaceFirst now predicate newValues t.currentRows with
  | some (rows, old) =>
    { t with currentRows := rows, history := t.history ++ [old], lastModified := now }
  | none => t

/-- `delete` with any predicate, and the number of rows deleted. -/
def deleteBy (t : TemporalTable) (now : UInt64) (predicate : List UInt64 → Bool) :
    TemporalTable × Nat :=
  let gone := t.currentRows.filter fun row => predicate row.1
  ({ t with
      currentRows := t.currentRows.filter fun row => !predicate row.1
      history := t.history ++ gone.map fun row =>
        { values := row.1, validFrom := row.2, validTo := now }
      lastModified := now }, gone.length)

variable {newValues : List UInt64} {now pk : UInt64}

theorem updateRows_eq {rows : List (List UInt64 × UInt64)} :
    updateRows now pk newValues rows =
      replaceFirst now (fun values => values.head? = some pk) newValues rows := by
  induction rows with
  | nil => rfl
  | cons row rows ih =>
    rw [updateRows, replaceFirst, ih]
    exact if_congr decide_eq_true_iff.symm rfl rfl

/-- The engine updates by the cell in the first column. -/
theorem update_eq (t : TemporalTable) :
    t.update now pk newValues =
      t.updateBy now (fun values => values.head? = some pk) newValues := by
  rw [update, updateRows_eq]
  rfl

/-! ## Readers -/

/-- `query_between`. -/
def queryBetween (t : TemporalTable) (start stop : UInt64) : List HistoryRow :=
  t.history.filter fun h => h.validFrom ≤ stop && start ≤ h.validTo

/-- A current row as a version, with the latest time there is as its end. -/
def currentVersion (row : List UInt64 × UInt64) : HistoryRow :=
  { values := row.1, validFrom := row.2, validTo := 0xFFFFFFFFFFFFFFFF }

/-- `query_all`. -/
def queryAll (t : TemporalTable) : List HistoryRow := t.history ++ t.currentRows.map currentVersion

end TemporalTable

inductive TemporalCall where
  | insert (values : List UInt64)
  | update (predicate : List UInt64 → Bool) (newValues : List UInt64)
  | delete (predicate : List UInt64 → Bool)

namespace TemporalTable

variable {time : UInt64} {t : TemporalTable} {now : UInt64} {rows : List (List UInt64 × UInt64)}
  {c : TemporalCall} {calls : List (UInt64 × TemporalCall)}

/-- A call at a reading of the clock. -/
def call (t : TemporalTable) (now : UInt64) : TemporalCall → TemporalTable
  | .insert values => t.insert now values
  | .update predicate newValues => t.updateBy now predicate newValues
  | .delete predicate => (t.deleteBy now predicate).1

/-- The table after calls, each with its reading of the clock. -/
def run (t : TemporalTable) (calls : List (UInt64 × TemporalCall)) : TemporalTable :=
  calls.foldl (fun t c => t.call c.1 c.2) t

@[simp] theorem run_concat {calls : List (UInt64 × TemporalCall)}
    {c : UInt64 × TemporalCall} : t.run (calls ++ [c]) = (t.run calls).call c.1 c.2 := by
  simp [run]

/-! ## What a call does -/

/-- A replaced row is one of the rows, and the other ones stay. -/
theorem replaceFirst_eq_some {predicate : List UInt64 → Bool} {newValues : List UInt64}
    {rows' : List (List UInt64 × UInt64)} {old : HistoryRow}
    (h : replaceFirst now predicate newValues rows = some (rows', old)) :
    ∃ before after, rows = before ++ (old.values, old.validFrom) :: after ∧
      rows' = before ++ (newValues, now) :: after ∧ old.validTo = now ∧
      predicate old.values = true := by
  induction rows generalizing rows' with
  | nil => exact nomatch h
  | cons row rows ih =>
    obtain ⟨values, validFrom⟩ := row
    rw [replaceFirst] at h
    split at h
    · cases h
      exact ⟨[], rows, rfl, rfl, rfl, by assumption⟩
    · cases hrest : replaceFirst now predicate newValues rows with
      | none => rw [hrest] at h; exact nomatch h
      | some p =>
        rw [hrest] at h
        cases h
        obtain ⟨before, after, rfl, hrows, hto⟩ := ih hrest
        exact ⟨(values, validFrom) :: before, after, rfl, by rw [hrows]; rfl, hto⟩

/-- A row that the predicate holds for is found. -/
theorem replaceFirst_isSome (now : UInt64) (predicate : List UInt64 → Bool)
    (newValues : List UInt64) {row : List UInt64 × UInt64} (hrow : row ∈ rows)
    (h : predicate row.1 = true) : (replaceFirst now predicate newValues rows).isSome := by
  induction rows with
  | nil => exact nomatch hrow
  | cons first rows ih =>
    rw [replaceFirst]
    split
    · rfl
    · next hfirst =>
      rcases mem_cons.mp hrow with rfl | hrest
      · exact absurd h hfirst
      · obtain ⟨p, hp⟩ := Option.isSome_iff_exists.mp (ih hrest)
        rw [hp]
        rfl

/-- A row that stops being current. -/
def ended (now : UInt64) (row : List UInt64 × UInt64) : HistoryRow :=
  { values := row.1, validFrom := row.2, validTo := now }

/-- A call ends some of the current versions and starts at most one: what it does, up to the order
of the rows. -/
theorem call_cases (t : TemporalTable) :
    ∃ (gone kept : List (List UInt64 × UInt64)) (started : Option (List UInt64)),
      t.currentRows.Perm (gone ++ kept) ∧
      (t.call now c).currentRows.Perm (kept ++ started.toList.map fun values => (values, now)) ∧
      (t.call now c).history = t.history ++ gone.map (ended now) := by
  cases c with
  | insert values =>
    exact ⟨[], t.currentRows, some values, .refl _, .refl _, by simp [call, insert]⟩
  | update predicate newValues =>
    rw [call, updateBy]
    cases h : replaceFirst now predicate newValues t.currentRows with
    | none => exact ⟨[], t.currentRows, none, .refl _, by simp, by simp⟩
    | some p =>
      obtain ⟨rows, old⟩ := p
      obtain ⟨before, after, hbefore, rfl, hto, -⟩ := replaceFirst_eq_some h
      refine ⟨[(old.values, old.validFrom)], before ++ after, some newValues, ?_, ?_, ?_⟩
      · rw [hbefore]
        exact perm_middle
      · exact perm_middle.trans (perm_append_singleton _ _).symm
      · simp [ended, ← hto]
  | delete predicate =>
    refine ⟨t.currentRows.filter fun row => predicate row.1,
      t.currentRows.filter fun row => !predicate row.1, none, ?_, ?_, rfl⟩
    · exact (filter_append_perm _ _).symm
    · simp [call, deleteBy]

/-! ## A point in time -/

/-- No version starts or ends after `now`. -/
structure UpTo (now : UInt64) (t : TemporalTable) : Prop where
  current : ∀ row ∈ t.currentRows, row.2 ≤ now
  history : ∀ h ∈ t.history, h.validTo ≤ now

theorem upTo_new (columnNames : List String) (created now : UInt64) :
    (new columnNames created).UpTo now where
  current _ h := nomatch h
  history _ h := nomatch h

theorem UpTo.call (h : t.UpTo time) (hle : now ≤ time) : (t.call now c).UpTo time := by
  obtain ⟨gone, kept, started, hcurrent, hcall, hhistory⟩ := t.call_cases
  constructor
  · intro row hmem
    rcases mem_append.mp (hcall.mem_iff.mp hmem) with hkept | hstarted
    · exact h.current row (hcurrent.mem_iff.mpr (mem_append_right gone hkept))
    · obtain ⟨values, -, rfl⟩ := mem_map.mp hstarted
      exact hle
  · intro v hmem
    rw [hhistory] at hmem
    rcases mem_append.mp hmem with hold | hnew
    · exact h.history v hold
    · obtain ⟨row, -, rfl⟩ := mem_map.mp hnew
      exact hle

/-- Before the time of a call nothing changes. -/
theorem queryAsOf_call_before (h : time < now) :
    ((t.call now c).queryAsOf time).Perm (t.queryAsOf time) := by
  obtain ⟨gone, kept, started, hcurrent, hcall, hhistory⟩ := t.call_cases
  have hnot : ¬ now ≤ time := UInt64.not_le.mpr h
  have hstarted : (started.toList.map fun values => (values, now)).filter
      (fun row => decide (row.2 ≤ time)) = [] := by
    rw [filter_eq_nil_iff]
    intro row hrow
    obtain ⟨values, -, rfl⟩ := mem_map.mp hrow
    simpa using hnot
  have hgone : ((gone.map (ended now)).filter fun v => v.validFrom ≤ time && time < v.validTo).map
      (·.values) = (gone.filter fun row => row.2 ≤ time).map Prod.fst := by
    rw [filter_map, map_map]
    simp only [Function.comp_def, ended, h, decide_true, Bool.and_true]
    rfl
  rw [queryAsOf, queryAsOf, hhistory, filter_append, map_append, hgone]
  refine (((hcall.filter _).map _).append_right _).trans ?_
  refine .trans ?_ (((hcurrent.filter _).map _).symm.append_right _)
  rw [filter_append, hstarted, append_nil, filter_append, map_append]
  rw [← append_assoc]
  exact perm_append_comm.trans (by rw [append_assoc])

/-- From the time of the last call on, the rows are the current ones. -/
theorem UpTo.queryAsOf (h : t.UpTo time) : t.queryAsOf time = t.currentRows.map Prod.fst := by
  have hcurrent : t.currentRows.filter (fun row => decide (row.2 ≤ time)) = t.currentRows :=
    filter_eq_self.mpr fun row hrow =>
      decide_eq_true (h.current row hrow)
  have hhistory : t.history.filter (fun v => v.validFrom ≤ time && time < v.validTo) = [] := by
    rw [filter_eq_nil_iff]
    intro v hv
    have hend : ¬ time < v.validTo := UInt64.not_lt.mpr (h.history v hv)
    simp [hend]
  rw [TemporalTable.queryAsOf, hcurrent, hhistory, map_nil, append_nil]

theorem UpTo.run (h : t.UpTo time) (hcalls : ∀ c ∈ calls, c.1 ≤ time) :
    (t.run calls).UpTo time := by
  induction calls using List.reverseRecOn with
  | nil => exact h
  | append_singleton calls c ih =>
    rw [run_concat]
    exact (ih fun d hd => hcalls d (mem_append_left _ hd)).call (hcalls c (by simp))

/-- Calls made later do not change what was current at a point in time. -/
theorem queryAsOf_run_before (t : TemporalTable) (hcalls : ∀ c ∈ calls, time < c.1) :
    ((t.run calls).queryAsOf time).Perm (t.queryAsOf time) := by
  induction calls using List.reverseRecOn with
  | nil => exact .refl _
  | append_singleton calls c ih =>
    rw [run_concat]
    exact (queryAsOf_call_before (hcalls c (by simp))).trans
      (ih fun d hd => hcalls d (mem_append_left _ hd))

end TemporalTable

open TemporalTable in
/-- At every point in time, a table has the rows that were current after the last call made up to
then. -/
theorem queryAsOf_run (columnNames : List String) (created : UInt64)
    (calls : List (UInt64 × TemporalCall)) (hordered : (calls.map Prod.fst).Pairwise (· ≤ ·))
    (time : UInt64) :
    (((new columnNames created).run calls).queryAsOf time).Perm
      (((new columnNames created).run (calls.rdropWhile fun c => time < c.1)).currentRows.map
        Prod.fst) := by
  induction calls using List.reverseRecOn with
  | nil => exact .refl _
  | append_singleton calls c ih =>
    rw [rdropWhile_concat]
    split
    · next hc =>
      rw [map_append, pairwise_append] at hordered
      rw [run_concat]
      exact (queryAsOf_call_before (of_decide_eq_true hc)).trans (ih hordered.1)
    · next hc =>
      -- the last call counts, and so do all before it
      have hle : c.1 ≤ time := UInt64.not_lt.mp (by simpa using hc)
      have hreadings : ∀ d ∈ calls ++ [c], d.1 ≤ time := by
        rw [map_append, pairwise_append] at hordered
        intro d hd
        rcases mem_append.mp hd with hd | hd
        · exact UInt64.le_trans (hordered.2.2 d.1 (mem_map_of_mem hd) c.1 (by simp)) hle
        · rw [mem_singleton.mp hd]
          exact hle
      rw [((upTo_new columnNames created time).run hreadings).queryAsOf]

/-- A row deleted at the time at which another one is inserted. -/
theorem queryAsOf_run_same_time :
    (((TemporalTable.new ["a"] 0).run
        [(1, .insert [7]), (2, .delete fun _ => true), (2, .insert [8])]).queryAsOf 2).Perm [[8]] :=
  queryAsOf_run ["a"] 0 [(1, .insert [7]), (2, .delete fun _ => true), (2, .insert [8])]
    (by decide) 2

/-! ## An interval -/

namespace TemporalTable

variable {t : TemporalTable}

/-- The versions that are current at a point in time. -/
def versionsAsOf (t : TemporalTable) (time : UInt64) : List HistoryRow :=
  (t.currentRows.filter fun row => row.2 ≤ time).map currentVersion ++
    t.history.filter fun v => v.validFrom ≤ time && time < v.validTo

open Classical in
/-- The versions that are current at some time of an interval. -/
noncomputable def versionsBetween (t : TemporalTable) (start stop : UInt64) : List HistoryRow :=
  t.queryAll.filter fun v => @decide (∃ time, start ≤ time ∧ time ≤ stop ∧ v ∈ t.versionsAsOf time)
    (propDecidable _)

/-- The times at which the versions of a table start. -/
def starts (t : TemporalTable) : List UInt64 :=
  t.currentRows.map Prod.snd ++ t.history.map (·.validFrom)

/-- The versions start at different times, and end after they start. -/
structure Separated (t : TemporalTable) : Prop where
  nodup : t.starts.Nodup
  lasting : ∀ v ∈ t.history, v.validFrom < v.validTo

variable {c : TemporalCall} {now : UInt64} {columnNames : List String} {created : UInt64}
  {calls : List (UInt64 × TemporalCall)}

theorem starts_call (t : TemporalTable) :
    (t.call now c).starts.Perm t.starts ∨ (t.call now c).starts.Perm (now :: t.starts) := by
  obtain ⟨gone, kept, started, hcurrent, hcall, hhistory⟩ := t.call_cases
  have hended : (gone.map (ended now)).map (·.validFrom) = gone.map Prod.snd := by
    rw [map_map]
    rfl
  have hold :
      t.starts.Perm (kept.map Prod.snd ++ (t.history.map (·.validFrom) ++ gone.map Prod.snd)) := by
    refine ((hcurrent.map _).append_right _).trans ?_
    rw [map_append, append_assoc]
    exact perm_append_comm.trans (by rw [append_assoc])
  have hnew : (t.call now c).starts.Perm ((started.toList.map fun _ => now) ++
      (kept.map Prod.snd ++ (t.history.map (·.validFrom) ++ gone.map Prod.snd))) := by
    rw [starts, hhistory, map_append, hended]
    refine ((hcall.map _).append_right _).trans ?_
    rw [map_append, map_map]
    refine (perm_append_comm.append_right _).trans ?_
    rw [append_assoc]
    exact .refl _
  cases started with
  | none => exact .inl (hnew.trans hold.symm)
  | some values => exact .inr (hnew.trans (hold.symm.cons now))

theorem Separated.call (h : t.Separated) (hstarts : ∀ time ∈ t.starts, time < now) :
    (t.call now c).Separated := by
  constructor
  · rcases t.starts_call with hperm | hperm
    · exact hperm.nodup_iff.mpr h.nodup
    · exact hperm.nodup_iff.mpr (nodup_cons.mpr
        ⟨fun hmem => UInt64.lt_irrefl now (hstarts now hmem), h.nodup⟩)
  · obtain ⟨gone, kept, started, hcurrent, -, hhistory⟩ := t.call_cases
    intro v hv
    rw [hhistory] at hv
    rcases mem_append.mp hv with hv | hv
    · exact h.lasting v hv
    · obtain ⟨row, hrow, rfl⟩ := mem_map.mp hv
      refine hstarts row.2 (mem_append_left _ (mem_map_of_mem ?_))
      exact hcurrent.mem_iff.mpr (mem_append_left kept hrow)

/-- Versions start at the times of calls. -/
theorem starts_run :
    ∀ time ∈ ((new columnNames created).run calls).starts, time ∈ calls.map Prod.fst := by
  induction calls using List.reverseRecOn with
  | nil => intro time h; exact nomatch h
  | append_singleton calls c ih =>
    intro time hmem
    rw [run_concat] at hmem
    rw [map_append, mem_append]
    rcases starts_call _ with hperm | hperm
    · exact .inl (ih time (hperm.mem_iff.mp hmem))
    · rcases mem_cons.mp (hperm.mem_iff.mp hmem) with rfl | hmem
      · exact .inr (mem_singleton.mpr rfl)
      · exact .inl (ih time hmem)

theorem separated_run (hordered : (calls.map Prod.fst).Pairwise (· < ·)) :
    ((new columnNames created).run calls).Separated := by
  induction calls using List.reverseRecOn with
  | nil => exact ⟨nodup_nil, fun v h => nomatch h⟩
  | append_singleton calls c ih =>
    rw [map_append, pairwise_append] at hordered
    rw [run_concat]
    refine (ih hordered.1).call (fun time hmem => ?_)
    exact hordered.2.2 time (starts_run time hmem) c.1 (by simp)

section

variable {row : List UInt64 × UInt64}

variable {t : TemporalTable} (h : t.Separated)
include h

variable {v : HistoryRow} {time start stop : UInt64}

/-- No version of the history starts with a current one. -/
theorem Separated.start_ne (hrow : row ∈ t.currentRows) (hv : v ∈ t.history) :
    v.validFrom ≠ row.2 := by
  intro heq
  exact (nodup_append.mp h.nodup).2.2 row.2 (mem_map_of_mem hrow) v.validFrom
    (mem_map_of_mem hv) heq.symm

theorem Separated.history_mem_versionsAsOf (hv : v ∈ t.history) :
    v ∈ t.versionsAsOf time ↔ v.validFrom ≤ time ∧ time < v.validTo := by
  rw [versionsAsOf, mem_append, mem_filter, mem_map]
  constructor
  · rintro (⟨row, hrow, rfl⟩ | ⟨-, hcurrent⟩)
    · exact absurd rfl (h.start_ne (mem_of_mem_filter hrow) hv)
    · simpa using hcurrent
  · intro hcurrent
    exact .inr ⟨hv, by simpa using hcurrent⟩

theorem Separated.current_mem_versionsAsOf (hrow : row ∈ t.currentRows) :
    currentVersion row ∈ t.versionsAsOf time ↔ row.2 ≤ time := by
  rw [versionsAsOf, mem_append, mem_filter, mem_map]
  constructor
  · rintro (⟨row', hrow', heq⟩ | ⟨hv, -⟩)
    · have hstart : row'.2 = row.2 := congrArg HistoryRow.validFrom heq
      rw [← hstart]
      simpa using (mem_filter.mp hrow').2
    · exact absurd rfl (h.start_ne hrow hv)
  · intro hle
    exact .inl ⟨row, mem_filter.mpr ⟨hrow, by simpa using hle⟩, rfl⟩

/-- A version of the history is current at some time of the interval if it starts before the
interval ends and ends after it starts. -/
theorem Separated.history_between (hv : v ∈ t.history) (hle : start ≤ stop) :
    (∃ time, start ≤ time ∧ time ≤ stop ∧ v ∈ t.versionsAsOf time) ↔
      v.validFrom ≤ stop ∧ start < v.validTo := by
  have hlasting := h.lasting v hv
  simp only [h.history_mem_versionsAsOf hv, UInt64.le_iff_toNat_le, UInt64.lt_iff_toNat_lt] at *
  constructor
  · rintro ⟨time, hstart, hstop, hfrom, hto⟩
    omega
  · rintro ⟨hfrom, hto⟩
    by_cases hbegun : v.validFrom.toNat ≤ start.toNat
    · exact ⟨start, le_rfl, hle, hbegun, hto⟩
    · exact ⟨v.validFrom, by omega, hfrom, le_rfl, hlasting⟩

theorem Separated.current_between (hrow : row ∈ t.currentRows) (hle : start ≤ stop) :
    (∃ time, start ≤ time ∧ time ≤ stop ∧ currentVersion row ∈ t.versionsAsOf time) ↔
      row.2 ≤ stop := by
  simp only [h.current_mem_versionsAsOf hrow]
  constructor
  · rintro ⟨time, -, hstop, hfrom⟩
    exact UInt64.le_trans hfrom hstop
  · intro hfrom
    exact ⟨stop, hle, UInt64.le_refl stop, hfrom⟩

end

/-- The versions `query_between` has no eyes for: rows of the interval that are still current, and
versions that end where the interval starts. -/
def BetweenKept (t : TemporalTable) (start stop : UInt64) : Prop :=
  (∀ row ∈ t.currentRows, stop < row.2) ∧
    ∀ v ∈ t.history, v.validFrom ≤ stop → v.validTo ≠ start

variable {start stop : UInt64}

theorem Separated.versionsBetween_eq (h : t.Separated) (hle : start ≤ stop) :
    t.versionsBetween start stop =
      (t.history.filter fun v => v.validFrom ≤ stop && start < v.validTo) ++
        (t.currentRows.filter fun row => row.2 ≤ stop).map currentVersion := by
  rw [versionsBetween, queryAll, filter_append, filter_map]
  refine congrArg₂ (· ++ ·) ?_ ?_
  · refine filter_congr fun v hv => Bool.eq_iff_iff.mpr ?_
    refine ((@decide_eq_true_iff _ (Classical.propDecidable _)).trans
      (h.history_between hv hle)).trans ?_
    simp
  · refine congrArg (List.map currentVersion) (filter_congr fun row hrow => ?_)
    refine Bool.eq_iff_iff.mpr ((@decide_eq_true_iff _ (Classical.propDecidable _)).trans ?_)
    rw [decide_eq_true_iff]
    exact h.current_between hrow hle

theorem Separated.queryBetween_perm_iff (h : t.Separated)
    (hle : start ≤ stop) : (t.queryBetween start stop).Perm (t.versionsBetween start stop) ↔
      t.BetweenKept start stop := by
  rw [h.versionsBetween_eq hle, queryBetween]
  constructor
  · intro hperm
    constructor
    · intro row hrow
      rw [← UInt64.not_le]
      intro hfrom
      -- the current row would have to be in the history
      have hmem := hperm.mem_iff.mpr (mem_append_right _ (mem_map_of_mem
        (mem_filter.mpr ⟨hrow, decide_eq_true hfrom⟩)))
      exact h.start_ne hrow (mem_of_mem_filter hmem) rfl
    · rintro v hv hfrom rfl
      have hmem := hperm.mem_iff.mp (mem_filter.mpr
        ⟨hv, by simp [hfrom]⟩)
      rcases mem_append.mp hmem with hmem | hmem
      · simpa using (mem_filter.mp hmem).2
      · obtain ⟨row, hrow, hversion⟩ := mem_map.mp hmem
        exact h.start_ne (mem_of_mem_filter hrow) hv (congrArg HistoryRow.validFrom hversion.symm)
  · rintro ⟨hcurrent, hhistory⟩
    have hnone : t.currentRows.filter (fun row => decide (row.2 ≤ stop)) = [] := by
      rw [filter_eq_nil_iff]
      intro row hrow
      simpa using hcurrent row hrow
    rw [hnone, map_nil, append_nil]
    refine .of_eq (filter_congr fun v hv => ?_)
    by_cases hfrom : v.validFrom ≤ stop
    · have hne := hhistory v hv hfrom
      have hiff : start ≤ v.validTo ↔ start < v.validTo := by
        rw [UInt64.le_iff_toNat_le, UInt64.lt_iff_toNat_lt]
        have : v.validTo.toNat ≠ start.toNat := fun heq => hne (UInt64.toNat_inj.mp heq)
        omega
      simp [hiff]
    · simp [hfrom]

end TemporalTable

open TemporalTable in
/-- Under a strictly increasing clock, `query_between` returns the versions that are current at some
time of the interval exactly if none of them is still current and no version ends where the interval
starts. -/
theorem queryBetween_exact_iff (columnNames : List String) (created : UInt64)
    (calls : List (UInt64 × TemporalCall)) (hordered : (calls.map Prod.fst).Pairwise (· < ·))
    (start stop : UInt64) (hle : start ≤ stop) :
    (((new columnNames created).run calls).queryBetween start stop).Perm
        (((new columnNames created).run calls).versionsBetween start stop) ↔
      ((new columnNames created).run calls).BetweenKept start stop :=
  (separated_run hordered).queryBetween_perm_iff hle

open TemporalTable in
/-- A row that was deleted within the interval is found. -/
theorem queryBetween_exact_deleted :
    (((new ["a"] 0).run [(1, .insert [7]), (5, .delete fun _ => true)]).queryBetween 2 9).Perm
      (((new ["a"] 0).run [(1, .insert [7]), (5, .delete fun _ => true)]).versionsBetween 2 9) :=
  (queryBetween_exact_iff ["a"] 0 [(1, .insert [7]), (5, .delete fun _ => true)] (by decide) 2 9
    (by decide)).mpr (by unfold BetweenKept; decide)

open TemporalTable in
/-- A row that is still current is not. -/
theorem queryBetween_misses_current :
    ((new ["a"] 0).run [(5, .insert [7])]).queryBetween 0 10 = [] ∧
      ((new ["a"] 0).run [(5, .insert [7])]).versionsBetween 0 10 =
        [⟨[7], 5, 0xFFFFFFFFFFFFFFFF⟩] := by
  refine ⟨by decide, ?_⟩
  have h : ((new ["a"] 0).run [(5, .insert [7])]).Separated := separated_run (by decide)
  rw [h.versionsBetween_eq (by decide)]
  decide

end TensorVault
