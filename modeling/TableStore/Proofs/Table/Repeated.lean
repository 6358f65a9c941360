import TableStore.Proofs.Database.Sound

/-!
Updates and removals that are repeated. Main statement: the second time they succeed as well and
leave the table as the first time did, and they find the same rows again unless the first time has
written another value to the column of the condition.
-/

namespace TableStore

namespace Table

/-- A table that was made on its own or in a database, whatever has been asked of it since. -/
inductive InUse : Table → Prop
  | stored {requests : List Request} {name : Bytes} {table : Table}
      (found : (Database.after requests).table? name = some table) : InUse table
  | alone {schema : Schema} {table : Table} (created : Table.create schema = .ok table)
      (commands : List TableCommand) : InUse (table.after commands)

/-- The value that assignments leave in a column: that of the last one, as the column stores it. -/
def lastStored? (table : Table) (assignments : List Assignment) (column : Bytes) :
    Option Value := do
  let position ← table.columnIndex? column
  let declared ← table.columns[position]?
  -- The last assignment is the first one from the end.
  let last ← assignments.reverse.find? (·.column == column)
  (declared.convert last.value).toOption

/-- Whether rows that met a condition meet it still after assignments. -/
def keepsMeeting (table : Table) (assignments : List Assignment) (condition : Condition) : Bool :=
  (table.lastStored? assignments condition.column).all (· == condition.value)

variable {table : Table} {condition : Condition} {assignments : List Assignment}
  {writes : List Write}

/-- What new tables have and every command keeps, all tables in use have. -/
theorem InUse.induction {holds : Table → Prop}
    (start : ∀ {schema table}, Table.create schema = .ok table → holds table)
    (step : ∀ {table changed}, holds table → table.Effect changed → holds changed)
    (inUse : table.InUse) : holds table := by
  -- Both kinds of table in use come from a creation by effects.
  cases inUse with
  | stored found =>
    exact @Database.tables_induction (fun _ table => holds table)
      (fun _ created => start created) step _ _ _ found
  | alone created commands =>
    refine after_induction (start created) (fun table command held => ?_) commands
    exact step held (table.perform_effect command)

/-- The indexes of every table in use are exact. -/
theorem InUse.indexed (inUse : table.InUse) : table.Indexed :=
  -- They are so at first, and every effect keeps them so.
  inUse.induction create_indexed Indexed.effect

/-! ## What an update leaves alone -/

/-- An update leaves the columns. -/
@[simp] theorem columns_applyTo (table : Table) (condition : Condition) (writes : List Write) :
    (table.applyTo condition writes).columns = table.columns := by
  -- The indexes are rebuilt or not, and the columns are in neither case touched.
  unfold applyTo
  dsimp only
  split <;> rfl

/-- An update leaves the name. -/
@[simp] theorem name_applyTo (table : Table) (condition : Condition) (writes : List Write) :
    (table.applyTo condition writes).name = table.name := by
  -- The name is touched as little as the columns are.
  unfold applyTo
  dsimp only
  split <;> rfl

/-- An update leaves every column in its position. -/
@[simp] theorem columnIndex?_applyTo (table : Table) (condition : Condition) (writes : List Write)
    (column : Bytes) :
    (table.applyTo condition writes).columnIndex? column = table.columnIndex? column := by
  -- Positions are read from the columns alone.
  simp [columnIndex?, columnNames]

/-- After an update the same rows meet a condition. -/
@[simp] theorem meets_applyTo (table : Table) (condition other : Condition) (writes : List Write) :
    (table.applyTo condition writes).meets other = table.meets other := by
  -- Whether a row meets a condition depends on the columns and on the row.
  funext row
  simp [meets, columnNames]

/-- Assignments come to the same writes before and after an update. -/
theorem resolveAll_applyTo (table : Table) (condition : Condition) (writes : List Write)
    (assignments : List Assignment) :
    (table.applyTo condition writes).resolveAll assignments = table.resolveAll assignments := by
  -- Resolving an assignment looks at the columns, which are the same.
  have sameResolve : (table.applyTo condition writes).resolve = table.resolve := by
    funext assignment
    simp [resolve]
  simp only [resolveAll, sameResolve]

/-- Rows in place of others have indexes at the same positions. -/
theorem indexAt?_withRows (table : Table) (rows : Array Row) (position : Nat) :
    (table.withRows rows).indexAt? position =
      (table.indexAt? position).map (·.rebuild rows.toList) := by
  show (table.withRows rows).indexes.find? _ = _
  rw [indexes_withRows, List.find?_map]
  -- Rebuilding an index does not move it to another column.
  have sameTest : ((·.position == position) ∘ fun index : KeyIndex => index.rebuild rows.toList) =
      (·.position == position) := by
    funext index
    simp only [Function.comp_apply, (index.rebuild_declared rows.toList).2]
  rw [sameTest]
  rfl

/-- After an update the same columns are indexed. -/
theorem position_indexAt?_applyTo (table : Table) (condition : Condition) (writes : List Write)
    (position : Nat) :
    ((table.applyTo condition writes).indexAt? position).map (·.position) =
      (table.indexAt? position).map (·.position) := by
  -- Where indexes are rebuilt, they keep their positions.
  unfold applyTo
  dsimp only
  split
  · rw [indexAt?_withRows, Option.map_map]
    exact Option.map_congr fun index _ => (index.rebuild_declared _).2
  · rfl

/-! ## What assignments leave in the column of the condition -/

/-- A write to a column has the value that the assignments leave there. -/
theorem lastStored?_of_mem (resolved : table.resolveAll assignments = .ok writes) {write : Write}
    (member : write ∈ writes) {column : Bytes}
    (found : table.columnIndex? column = some write.position) :
    table.lastStored? assignments column = some write.value := by
  rw [resolveAll_eq, map_eq_ok_iff] at resolved
  obtain ⟨all, steps, rfl⟩ := resolved
  -- The last write to the position comes from the last assignment to the column.
  have pairs := List.rel_reverse (mapM_eq_ok_iff.1 steps)
  have agree : ∀ (assignment : Assignment) (other : Write), table.resolve assignment = .ok other →
      (assignment.column == column) = (other.position == write.position) := by
    intro assignment other step
    have place := position_of_resolve step
    rw [Bool.eq_iff_iff, beq_iff_eq, beq_iff_eq]
    constructor
    · rintro rfl
      exact Option.some.inj (place.symm.trans found)
    · intro same
      exact columnIndex?_inj (same ▸ place) found
  obtain ⟨last, lastFound, step⟩ := find?_of_forall₂ pairs agree (last_of_mem_merge member)
  simp only [resolve, bind_eq_ok_iff, elim_eq_ok_iff] at step
  obtain ⟨position, place, declared, present, value, converted, built⟩ := step
  obtain rfl := Except.ok.inj built
  have stored := mapError_eq_ok_iff.1 converted
  simp [lastStored?, found, present, lastFound, stored, Except.toOption]

/-- Without a write to a column the assignments leave nothing there. -/
theorem lastStored?_of_notMem (resolved : table.resolveAll assignments = .ok writes)
    {column : Bytes} {position : Nat} (found : table.columnIndex? column = some position)
    (unwritten : position ∉ writes.map (·.position)) :
    table.lastStored? assignments column = none := by
  rw [resolveAll_eq, map_eq_ok_iff] at resolved
  obtain ⟨all, steps, rfl⟩ := resolved
  have unassigned : assignments.reverse.find? (·.column == column) = none := by
    rw [List.find?_eq_none]
    intro assignment among named
    -- An assignment to the column would have come to a write at its position.
    rw [List.mem_reverse] at among
    obtain ⟨write, member, step⟩ := exists_of_mem_forall₂ (mapM_eq_ok_iff.1 steps).flip among
    have place := position_of_resolve step
    rw [beq_iff_eq.1 named, found] at place
    refine unwritten ?_
    rw [positions_merge, List.mem_eraseDups, Option.some.inj place]
    exact List.mem_map_of_mem member
  simp [lastStored?, unassigned]

/-- A rewritten row meets the condition again exactly if its column keeps the value. -/
theorem Indexed.meets_rewrite (indexed : table.Indexed)
    (resolved : table.resolveAll assignments = .ok writes) {row : Row}
    (among : row ∈ table.rows.toList) :
    table.meets condition (table.rewrite condition writes row) =
      (table.meets condition row && table.keepsMeeting assignments condition) := by
  obtain ⟨distinct, placed⟩ := writes_of_resolveAll resolved
  cases met : table.meets condition row with
  | false => simp [rewrite, met]
  | true =>
    rw [Bool.true_and, rewrite, if_pos met, keepsMeeting]
    simp only [meets, Condition.holdsFor] at met ⊢
    show (table.columnIndex? condition.column).any _ = _
    change (table.columnIndex? condition.column).any _ = true at met
    cases found : table.columnIndex? condition.column with
    | none => simp [found] at met
    | some position =>
      rw [found, Option.any_some] at met
      rw [Option.any_some]
      by_cases written : position ∈ writes.map (·.position)
      · -- Every row gets the value that the last assignment leaves.
        obtain ⟨write, member, rfl⟩ := List.mem_map.1 written
        have within : write.position < row.length := by
          rw [indexed.width row among]
          exact placed write member
        rw [valueAt_applyWrites_of_mem distinct member within,
          lastStored?_of_mem resolved member found, Option.all_some]
      · rw [valueAt_applyWrites_of_notMem written, met,
          lastStored?_of_notMem resolved found written, Option.all_none]

/-! ## The second time -/

/-- Writing the same values again changes nothing. -/
theorem applyWrites_applyWrites (distinct : (writes.map (·.position)).Nodup) (row : Row) :
    applyWrites writes (applyWrites writes row) = applyWrites writes row := by
  induction writes generalizing row with
  | nil => rfl
  | cons write writes ih =>
    rw [List.map_cons, List.nodup_cons] at distinct
    show applyWrites writes ((applyWrites writes (row.set write.position write.value)).set
      write.position write.value) = applyWrites writes (row.set write.position write.value)
    -- The first write is moved behind the others, where it is made twice.
    simp only [applyWrites_set distinct.1, ih distinct.2, List.set_set]

/-- Rewriting a row again changes nothing, if no position is written twice. -/
theorem rewrite_rewrite (distinct : (writes.map (·.position)).Nodup) (row : Row) :
    table.rewrite condition writes (table.rewrite condition writes row) =
      table.rewrite condition writes row := by
  -- A row that is met is written, and written again if it is still met.
  unfold rewrite
  split
  · split
    · exact applyWrites_applyWrites distinct row
    · rfl
  · rfl

/-- The same writes to the same rows leave the table as it is. -/
theorem applyTo_applyTo (distinct : (writes.map (·.position)).Nodup) :
    (table.applyTo condition writes).applyTo condition writes = table.applyTo condition writes := by
  have rows : ((table.applyTo condition writes).rows.map fun row =>
      if (table.applyTo condition writes).meets condition row then applyWrites writes row else row) =
        (table.applyTo condition writes).rows := by
    rw [← Array.toList_inj, Array.toList_map, meets_applyTo, rows_applyTo, List.map_map]
    exact List.map_congr_left fun row _ => rewrite_rewrite distinct row
  have touched : (writes.any fun write =>
      ((table.applyTo condition writes).indexAt? write.position).isSome) =
        writes.any fun write => (table.indexAt? write.position).isSome := by
    congr 1
    funext write
    rw [← Option.isSome_map, position_indexAt?_applyTo, Option.isSome_map]
  rw [applyTo, rows, touched, applyTo]
  -- The indexes are built anew both times, and from the same rows, or not at all.
  split
  · exact table.withRows_withRows _ _
  · rfl

/-- After an update the condition is met in the same places or nowhere. -/
theorem Indexed.targets_applyTo (indexed : table.Indexed)
    (resolved : table.resolveAll assignments = .ok writes) :
    (table.applyTo condition writes).targets condition =
      if table.keepsMeeting assignments condition then table.targets condition else [] := by
  -- A rewritten row stands where the row was.
  have places : (table.applyTo condition writes).targets condition =
      (table.rows.toList.zipIdx.filter fun place =>
        table.meets condition (table.rewrite condition writes place.1)).map (·.2) := by
    rw [targets, meets_applyTo, rows_applyTo, List.zipIdx_map, List.filter_map, List.map_map]
    rfl
  have meets : ∀ place ∈ table.rows.toList.zipIdx,
      table.meets condition (table.rewrite condition writes place.1) =
        (table.meets condition place.1 && table.keepsMeeting assignments condition) :=
    fun place member => indexed.meets_rewrite resolved (List.fst_mem_of_mem_zipIdx member)
  rw [places, List.filter_congr meets, targets]
  cases table.keepsMeeting assignments condition <;> simp

/-- Values that an update was free to write are free to be written again. -/
theorem Indexed.isBlocked_applyTo (indexed : table.Indexed)
    (resolved : table.resolveAll assignments = .ok writes)
    (keeps : table.keepsMeeting assignments condition = true) {index again : KeyIndex}
    (samePosition : again.position = index.position) {value : Value}
    (unblocked : table.isBlocked condition index value = false) :
    (table.applyTo condition writes).isBlocked condition again value = false := by
  simp only [isBlocked, Bool.or_eq_false_iff, List.any_eq_false] at unblocked ⊢
  refine ⟨?_, fun row member => ?_⟩
  · rw [← length_targets, indexed.targets_applyTo resolved, if_pos keeps, length_targets]
    exact unblocked.1
  · rw [rows_applyTo] at member
    obtain ⟨old, among, rfl⟩ := List.mem_map.1 member
    rw [meets_applyTo, indexed.meets_rewrite resolved among, keeps, Bool.and_true]
    -- A row that does not meet the condition is the one that was there before.
    cases met : table.meets condition old with
    | true => simp
    | false =>
      have held := unblocked.2 old among
      rw [met] at held
      rwa [rewrite, if_neg (by simp [met]), KeyIndex.valueOf, samePosition]

/-- An update that succeeds can be made again. -/
theorem Indexed.free_applyTo (indexed : table.Indexed)
    (resolved : table.resolveAll assignments = .ok writes)
    (matched : table.targets condition ≠ [])
    (free : ∀ write ∈ writes, table.conflict? (table.targets condition) write = none)
    (keeps : table.keepsMeeting assignments condition = true) :
    ∀ write ∈ writes, (table.applyTo condition writes).conflict?
      ((table.applyTo condition writes).targets condition) write = none := by
  obtain ⟨distinct, placed⟩ := writes_of_resolveAll resolved
  have updated := indexed.applyTo matched distinct placed free
  have matchedAgain : (table.applyTo condition writes).targets condition ≠ [] := by
    rwa [indexed.targets_applyTo resolved, if_pos keeps]
  intro write member
  have before := free write member
  rw [indexed.conflict?_eq matched] at before
  rw [updated.conflict?_eq matchedAgain]
  cases located : (table.applyTo condition writes).indexAt? write.position with
  | none => rfl
  | some again =>
    -- The column was indexed before the update as well.
    have position := position_indexAt?_applyTo table condition writes write.position
    rw [located] at position
    obtain ⟨index, found, same⟩ := Option.map_eq_some_iff.1 position.symm
    rw [found, Option.bind_some] at before
    have unblocked : table.isBlocked condition index write.value = false := by
      simpa using before
    rw [Option.bind_some, indexed.isBlocked_applyTo resolved keeps same.symm unblocked]
    rfl

/-- An update that has succeeded succeeds again and changes nothing more. -/
theorem Indexed.update_again (indexed : table.Indexed) {condition : Option Condition}
    {count : Nat} {updated : Table}
    (succeeded : table.update assignments condition = .ok (count, updated)) :
    ∃ present, condition = some present ∧
      updated.update assignments condition =
        .ok (if table.keepsMeeting assignments present then count else 0, updated) := by
  obtain ⟨present, writes, rfl, resolved, rfl, untouched | touched⟩ := update_eq_ok_iff.1 succeeded
  · -- Where no row meets the condition, nothing has changed.
    obtain ⟨empty, rfl⟩ := untouched
    refine ⟨present, rfl, ?_⟩
    rw [succeeded, empty]
    simp
  · obtain ⟨matched, free, rfl⟩ := touched
    refine ⟨present, rfl, update_eq_ok_iff.2 ⟨present, writes, rfl, ?_, ?_, ?_⟩⟩
    · rw [resolveAll_applyTo, resolved]
    · rw [indexed.targets_applyTo resolved]
      split <;> rfl
    · rw [indexed.targets_applyTo resolved, applyTo_applyTo (writes_of_resolveAll resolved).1]
      by_cases keeps : table.keepsMeeting assignments present = true
      · refine .inr ⟨by rwa [if_pos keeps], ?_, rfl⟩
        have freeAgain := indexed.free_applyTo resolved matched free keeps
        rwa [indexed.targets_applyTo resolved] at freeAgain
      · exact .inl ⟨if_neg keeps, rfl⟩

/-- A removal that is repeated finds no row and changes nothing. -/
theorem remove_again {condition : Option Condition} {count : Nat} {left : Table}
    (succeeded : table.remove condition = .ok (count, left)) :
    left.remove condition = .ok (0, left) := by
  -- What has gone are the rows that met the condition, so that none is left that does.
  obtain ⟨present, rfl, -, rfl⟩ := remove_eq_ok_iff.1 succeeded
  have meets : (table.withRows (table.rows.filter fun row => !table.meets present row)).meets
      present = table.meets present := rfl
  refine remove_eq_ok_iff.2 ⟨present, rfl, ?_, ?_⟩
  · -- Keeping the rows that do not meet it and then those that do keeps none.
    rw [length_targets, meets]
    show 0 = ((table.rows.filter fun row => !table.meets present row).toList.filter _).length
    simp [List.filter_filter]
  · -- A second filter by the same condition keeps every row.
    rw [meets, withRows_withRows]
    congr 1
    show _ = (table.rows.filter fun row => !table.meets present row).filter _
    simp [Array.filter_filter]

end Table

/--
An update that succeeds succeeds again with the same arguments and leaves the table, with its rows
and indexes, as it is. It finds as many rows as before, or none if the last assignment to the
column of the condition has left another value there. A removal finds nothing the second time.
-/
theorem writes_repeat {table : Table} (inUse : table.InUse) (condition : Option Condition) :
    (∀ (assignments : List Assignment) (count : Nat) (updated : Table),
      table.update assignments condition = .ok (count, updated) →
        ∃ present, condition = some present ∧
          updated.update assignments condition =
            .ok (if table.keepsMeeting assignments present then count else 0, updated)) ∧
    ∀ (count : Nat) (left : Table), table.remove condition = .ok (count, left) →
      left.remove condition = .ok (0, left) :=
  -- The two parts are the lemmas on updates and on removals.
  ⟨fun _ _ _ => inUse.indexed.update_again, fun _ _ => Table.remove_again⟩

/--
A key that is assigned twice and is the column of the condition moves the row out of reach of the
second update; a removal after it finds the other row once.
-/
theorem writes_repeat_reassigned :
    ∃ table updated left : Table, table.InUse ∧
      table.update [⟨"a", .integer 2⟩, ⟨"b", .text "z"⟩, ⟨"a", .float ⟨0x4008000000000000⟩⟩]
        (some ⟨"a", .integer 1⟩) = .ok (1, updated) ∧
      updated.update [⟨"a", .integer 2⟩, ⟨"b", .text "z"⟩, ⟨"a", .float ⟨0x4008000000000000⟩⟩]
        (some ⟨"a", .integer 1⟩) = .ok (0, updated) ∧
      table.remove (some ⟨"b", .text "y"⟩) = .ok (1, left) ∧
      left.remove (some ⟨"b", .text "y"⟩) = .ok (0, left) := by
  -- Both operations are run on the table that the requests leave.
  have run : ((Database.after [.execute "CREATE TABLE t (a INT PRIMARY KEY, b TEXT UNIQUE)",
      .execute "INSERT INTO t VALUES (1, 'x')",
      .execute "INSERT INTO t VALUES (2, 'y')"]).table? "t").any (fun table =>
        (table.update [⟨"a", .integer 2⟩, ⟨"b", .text "z"⟩, ⟨"a", .float ⟨0x4008000000000000⟩⟩]
          (some ⟨"a", .integer 1⟩)).map (·.1) == .ok 1 &&
        !table.keepsMeeting
          [⟨"a", .integer 2⟩, ⟨"b", .text "z"⟩, ⟨"a", .float ⟨0x4008000000000000⟩⟩]
          ⟨"a", .integer 1⟩ &&
        (table.remove (some ⟨"b", .text "y"⟩)).map (·.1) == .ok 1) = true := by
    decide +kernel
  simp only [Option.any_eq_true, Bool.and_eq_true, beq_iff_eq, Bool.not_eq_true',
    map_eq_ok_iff] at run
  obtain ⟨table, found, ⟨⟨⟨_, updated⟩, isUpdated, rfl⟩, moved⟩, ⟨_, left⟩, isLeft, rfl⟩ := run
  have inUse : table.InUse := .stored found
  obtain ⟨present, same, again⟩ := (writes_repeat inUse _).1 _ _ _ isUpdated
  obtain rfl := Option.some.inj same
  rw [moved] at again
  exact ⟨table, updated, left, inUse, isUpdated, again, isLeft,
    (writes_repeat inUse _).2 _ _ isLeft⟩

end TableStore
