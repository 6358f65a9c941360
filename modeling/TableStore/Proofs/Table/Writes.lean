import Mathlib.Data.List.Nodup
import TableStore.Proofs.Result
import TableStore.Proofs.Search
import TableStore.Table.Operations

/-! Writes to a row: a column that is written again keeps its last value only. -/

namespace TableStore

namespace Table

/-- Writes to a row do not change its width. -/
@[simp] theorem length_applyWrites (writes : List Write) (row : Row) :
    (applyWrites writes row).length = row.length := by
  -- By induction on the writes, since each sets one position.
  induction writes generalizing row with
  | nil => rfl
  | cons write writes ih =>
    show (applyWrites writes (row.set write.position write.value)).length = row.length
    rw [ih, List.length_set]

/-- A column that is not written keeps its value. -/
theorem valueAt_applyWrites_of_notMem {writes : List Write} {position : Nat}
    (unwritten : position ∉ writes.map (·.position)) (row : Row) :
    (applyWrites writes row).valueAt position = row.valueAt position := by
  induction writes generalizing row with
  | nil => rfl
  | cons write writes ih =>
    simp only [List.map_cons, List.mem_cons, not_or] at unwritten
    show (applyWrites writes (row.set write.position write.value)).valueAt position = _
    -- The later writes leave the value, and the first one is to another column.
    rw [ih unwritten.2]
    simp [Row.valueAt, List.getElem?_set_ne (Ne.symm unwritten.1)]

/-- A write to one column and writes to others come to the same in either order. -/
theorem applyWrites_set {writes : List Write} {position : Nat}
    (unwritten : position ∉ writes.map (·.position)) (value : Value) (row : Row) :
    applyWrites writes (row.set position value) = (applyWrites writes row).set position value := by
  induction writes generalizing row with
  | nil => rfl
  | cons write writes ih =>
    simp only [List.map_cons, List.mem_cons, not_or] at unwritten
    show applyWrites writes ((row.set position value).set write.position write.value) = _
    -- The value is moved past the first write and then past the others.
    rw [List.set_comm _ _ unwritten.1, ih unwritten.2]
    rfl

/-- Of writes to different columns each leaves its value. -/
theorem valueAt_applyWrites_of_mem {writes : List Write} {write : Write} {row : Row}
    (distinct : (writes.map (·.position)).Nodup) (member : write ∈ writes)
    (within : write.position < row.length) :
    (applyWrites writes row).valueAt write.position = write.value := by
  induction writes generalizing row with
  | nil => simp at member
  | cons other writes ih =>
    rw [List.map_cons, List.nodup_cons] at distinct
    show (applyWrites writes (row.set other.position other.value)).valueAt write.position = _
    rcases List.mem_cons.1 member with rfl | member
    · -- The first write is the only one to its column, so that no other hides it.
      rw [valueAt_applyWrites_of_notMem distinct.1]
      simp [Row.valueAt, within]
    · exact ih distinct.2 member (by simpa using within)

/-- The columns written are those from before and the new one. -/
theorem positions_addWrite (write : Write) (writes : List Write) :
    (addWrite write writes).map (·.position) =
      if write.position ∈ writes.map (·.position) then writes.map (·.position)
      else writes.map (·.position) ++ [write.position] := by
  induction writes with
  | nil => simp [addWrite]
  | cons other writes ih =>
    by_cases same : other.position = write.position
    · -- The new write takes the place of the other.
      simp [addWrite, same]
    · simp only [addWrite, beq_iff_eq, if_neg same, List.map_cons, ih, List.mem_cons,
        Ne.symm same, false_or]
      split <;> rfl

/-- One more write leaves no column written twice. -/
theorem nodup_addWrite {writes : List Write} (distinct : (writes.map (·.position)).Nodup)
    (write : Write) : ((addWrite write writes).map (·.position)).Nodup := by
  rw [positions_addWrite]
  split
  · exact distinct
  · -- A column that is new comes after all the others.
    rename_i fresh
    rw [← List.concat_eq_append]
    exact distinct.concat fresh

/-- Every write is one from before or the new one. -/
theorem mem_addWrite {write other : Write} {writes : List Write}
    (member : other ∈ addWrite write writes) : other = write ∨ other ∈ writes := by
  induction writes with
  | nil => simpa [addWrite] using member
  | cons first writes ih =>
    by_cases same : first.position = write.position
    · simp only [addWrite, beq_iff_eq, if_pos same, List.mem_cons] at member
      exact member.imp_right (List.mem_cons_of_mem first)
    · -- The first write stays, and the others are those of the rest.
      simp only [addWrite, beq_iff_eq, if_neg same, List.mem_cons] at member
      rcases member with rfl | member
      · exact .inr List.mem_cons_self
      · exact (ih member).imp_right (List.mem_cons_of_mem first)

/-- The new write is among the writes. -/
theorem self_mem_addWrite (write : Write) (writes : List Write) :
    write ∈ addWrite write writes := by
  -- It replaces the write to its column or comes last.
  induction writes with
  | nil => simp [addWrite]
  | cons other writes ih =>
    unfold addWrite
    split
    · exact List.mem_cons_self
    · exact List.mem_cons_of_mem other ih

/-- One more write has the effect of writing it after the others. -/
theorem applyWrites_addWrite {writes : List Write} (distinct : (writes.map (·.position)).Nodup)
    (write : Write) (row : Row) :
    applyWrites (addWrite write writes) row =
      (applyWrites writes row).set write.position write.value := by
  induction writes generalizing row with
  | nil => rfl
  | cons other writes ih =>
    rw [List.map_cons, List.nodup_cons] at distinct
    by_cases same : other.position = write.position
    · -- The value from before is overwritten, whatever is written in between.
      have unwritten : write.position ∉ writes.map (·.position) := same ▸ distinct.1
      simp only [addWrite, beq_iff_eq, if_pos same]
      show applyWrites writes (row.set write.position write.value) =
        (applyWrites writes (row.set other.position other.value)).set write.position write.value
      rw [same, applyWrites_set unwritten, applyWrites_set unwritten, List.set_set]
    · -- The other write comes first on both sides.
      simp only [addWrite, beq_iff_eq, if_neg same]
      exact ih distinct.2 (row.set other.position other.value)

/-- Writes with only the last one for each column, at the place of the first. -/
def merge (writes : List Write) : List Write :=
  writes.foldl (fun merged write => addWrite write merged) []

/-- Merging goes on with one more write. -/
theorem merge_concat (writes : List Write) (write : Write) :
    merge (writes ++ [write]) = addWrite write (merge writes) := by
  -- Merging adds the writes one after another, from the left.
  simp [merge]

/-- Merged writes are to different columns. -/
theorem nodup_merge (writes : List Write) : ((merge writes).map (·.position)).Nodup := by
  -- Adding a write never makes two for one position.
  induction writes using List.reverseRecOn with
  | nil => exact List.nodup_nil
  | append_singleton writes write ih => exact merge_concat writes write ▸ nodup_addWrite ih write

/-- Merging invents no write. -/
theorem mem_of_mem_merge {write : Write} {writes : List Write} (member : write ∈ merge writes) :
    write ∈ writes := by
  induction writes using List.reverseRecOn with
  | nil => simp [merge] at member
  | append_singleton writes last ih =>
    rw [merge_concat] at member
    -- A merged write is the last one or was merged before it.
    rcases mem_addWrite member with rfl | member
    · simp
    · exact List.mem_append_left _ (ih member)

/-- A merged write is the last one to its column. -/
theorem last_of_mem_merge {write : Write} {writes : List Write} (member : write ∈ merge writes) :
    writes.reverse.find? (·.position == write.position) = some write := by
  induction writes using List.reverseRecOn with
  | nil => simp [merge] at member
  | append_singleton writes last ih =>
    rw [merge_concat] at member
    rw [List.reverse_append, List.reverse_singleton, List.singleton_append, List.find?_cons]
    by_cases same : last.position = write.position
    · -- Only one merged write is to this column, and the last one is.
      have positions := nodup_addWrite (nodup_merge writes) last
      have lastIn := self_mem_addWrite last (merge writes)
      simp [List.inj_on_of_nodup_map positions lastIn member same]
    · rw [beq_false_of_ne same]
      rcases mem_addWrite member with rfl | member
      · exact absurd rfl same
      · exact ih member

/-- The merged writes are to the columns that are written, in the same order. -/
theorem positions_merge (writes : List Write) :
    (merge writes).map (·.position) = (writes.map (·.position)).eraseDups := by
  induction writes using List.reverseRecOn with
  | nil => rfl
  | append_singleton writes write ih =>
    -- A column that was written before keeps its place, and a new one comes last.
    rw [merge_concat, positions_addWrite, ih, List.map_append, List.map_singleton,
      eraseDups_concat]
    simp only [List.mem_eraseDups]

/-- A search through the merged writes is one through the last writes to each column. -/
theorem findSome?_merge {β : Type} (select : Write → Option β) (writes : List Write) :
    (merge writes).findSome? select = writes.findSome? fun write =>
      (writes.reverse.find? (·.position == write.position)).bind select := by
  -- A merged write is determined by its column.
  have byPosition : (merge writes).findSome? select =
      ((merge writes).map (·.position)).findSome? fun position =>
        (writes.reverse.find? (·.position == position)).bind select := by
    rw [List.findSome?_map]
    refine findSome?_congr fun write member => ?_
    rw [Function.comp_apply, last_of_mem_merge member, Option.bind_some]
  -- So the search is one through columns, which may as well be repeated.
  rw [byPosition, positions_merge, findSome?_eraseDups, List.findSome?_map]
  rfl

/-- Merged writes leave the same row as all of them one after another. -/
theorem applyWrites_merge (writes : List Write) (row : Row) :
    applyWrites (merge writes) row = applyWrites writes row := by
  -- By induction from the last write on, which is the one that counts for its column.
  induction writes using List.reverseRecOn with
  | nil => rfl
  | append_singleton writes write ih =>
    rw [merge_concat, applyWrites_addWrite (nodup_merge writes), ih]
    simp [applyWrites]

/-- The assignments are resolved one after another, and the writes merged. -/
theorem resolveAll_eq (table : Table) (assignments : List Assignment) :
    table.resolveAll assignments = (assignments.mapM table.resolve).map merge := by
  -- The fold starts from any list of writes that are merged already.
  have general : ∀ merged : List Write,
      assignments.foldlM (fun writes assignment =>
        return addWrite (← table.resolve assignment) writes) merged =
      (assignments.mapM table.resolve).map
        (List.foldl (fun merged write => addWrite write merged) merged) := by
    induction assignments with
    | nil => intro merged; rfl
    | cons assignment assignments ih =>
      intro merged
      rw [List.foldlM_cons, List.mapM_cons]
      cases table.resolve assignment with
      | error error => rfl
      | ok write =>
        -- The write is merged before the other assignments are resolved.
        show assignments.foldlM _ (addWrite write merged) = _
        rw [ih]
        cases assignments.mapM table.resolve <;> rfl
  exact general []

/-- An assignment is resolved to the position of its column. -/
theorem position_of_resolve {table : Table} {assignment : Assignment} {write : Write}
    (resolved : table.resolve assignment = .ok write) :
    table.columnIndex? assignment.column = some write.position := by
  -- The position is looked up first, and the write keeps it.
  simp only [resolve, bind_eq_ok_iff, elim_eq_ok_iff] at resolved
  obtain ⟨position, found, column, -, value, -, built⟩ := resolved
  obtain rfl := Except.ok.inj built
  exact found

/-- The position of a column lies within every row of the table's width. -/
theorem lt_of_columnIndex? {table : Table} {column : Bytes} {position : Nat}
    (found : table.columnIndex? column = some position) : position < table.columns.length := by
  -- A position in the list of names is below its length.
  obtain ⟨within, -⟩ := List.idxOf?_eq_some_iff.1 found
  simpa [columnNames] using within

/-- Columns of different names are at different positions. -/
theorem columnIndex?_inj {table : Table} {column other : Bytes} {position : Nat}
    (found : table.columnIndex? column = some position)
    (otherFound : table.columnIndex? other = some position) : column = other := by
  -- Both names are what the list has at that position.
  obtain ⟨_, named, -⟩ := List.idxOf?_eq_some_iff.1 found
  obtain ⟨_, otherNamed, -⟩ := List.idxOf?_eq_some_iff.1 otherFound
  exact named.symm.trans otherNamed

/-- Every write comes from one of the assignments. -/
theorem exists_of_mem_resolveAll {table : Table} {assignments : List Assignment}
    {writes : List Write} (resolved : table.resolveAll assignments = .ok writes) {write : Write}
    (member : write ∈ writes) :
    ∃ assignment ∈ assignments, table.resolve assignment = .ok write := by
  rw [resolveAll_eq, map_eq_ok_iff] at resolved
  obtain ⟨all, steps, rfl⟩ := resolved
  -- A merged write is the one that some assignment resolved to.
  exact exists_of_mem_mapM steps (mem_of_mem_merge member)

/-- Resolved writes are to different columns of the table. -/
theorem writes_of_resolveAll {table : Table} {assignments : List Assignment}
    {writes : List Write} (resolved : table.resolveAll assignments = .ok writes) :
    (writes.map (·.position)).Nodup ∧
      ∀ write ∈ writes, write.position < table.columns.length := by
  -- Merging sees to the first part; the second holds for each assignment by itself.
  refine ⟨?_, fun write member => ?_⟩
  · rw [resolveAll_eq, map_eq_ok_iff] at resolved
    obtain ⟨all, -, rfl⟩ := resolved
    exact nodup_merge all
  · obtain ⟨assignment, -, step⟩ := exists_of_mem_resolveAll resolved member
    exact lt_of_columnIndex? (position_of_resolve step)

end Table

end TableStore
