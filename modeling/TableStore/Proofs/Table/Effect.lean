import TableStore.Proofs.Result
import TableStore.Proofs.Table.KeyIndex
import TableStore.Table.Command

/-! What a command can do to a table: nothing, or one of three changes after its checks. -/

namespace TableStore

namespace Table

/-- The tables that a command can leave behind, with what has been checked before each change. -/
inductive Effect (table : Table) : Table → Prop
  | unchanged : Effect table table
  | inserted {values : List Value} {row : Row} (converted : table.convertRow values = .ok row)
      (fresh : table.duplicate? row = none) : Effect table (table.push row)
  | updated {assignments : List Assignment} {condition : Condition} {writes : List Write}
      (resolved : table.resolveAll assignments = .ok writes)
      (matched : table.targets condition ≠ [])
      (free : ∀ write ∈ writes, table.conflict? (table.targets condition) write = none) :
      Effect table (table.applyTo condition writes)
  | removed (condition : Condition) :
      Effect table (table.withRows (table.rows.filter fun row => !table.meets condition row))

/-- A row is inserted exactly if its values convert and none of them is taken. -/
theorem insert_eq_ok_iff {table inserted : Table} {values : List Value} :
    table.insert values = .ok inserted ↔
      ∃ row, table.convertRow values = .ok row ∧ table.duplicate? row = none ∧
        inserted = table.push row := by
  -- The conversion comes before the look-up in the indexes.
  unfold insert
  rw [bind_eq_ok_iff]
  refine exists_congr fun row => and_congr_right fun _ => ?_
  cases table.duplicate? row <;> simp [eq_comm]

/-- An update succeeds exactly if its assignments resolve and, where rows match, none conflicts. -/
theorem update_eq_ok_iff {table updated : Table} {assignments : List Assignment}
    {condition : Option Condition} {count : Nat} :
    table.update assignments condition = .ok (count, updated) ↔
      ∃ present writes, condition = some present ∧ table.resolveAll assignments = .ok writes ∧
        count = (table.targets present).length ∧
        (table.targets present = [] ∧ updated = table ∨
          table.targets present ≠ [] ∧
            (∀ write ∈ writes, table.conflict? (table.targets present) write = none) ∧
            updated = table.applyTo present writes) := by
  unfold update
  simp only [bind_eq_ok_iff, elim_eq_ok_iff]
  constructor
  · intro succeeded
    rcases succeeded with ⟨present, rfl, writes, resolved, rest⟩
    refine ⟨present, writes, rfl, resolved, ?_⟩
    by_cases empty : table.targets present = []
    · -- Without a matching row nothing is checked further.
      simp only [empty, List.isEmpty_nil, if_true, Pure.pure, Except.pure, Except.ok.injEq,
        Prod.mk.injEq] at rest
      simp [empty, rest.1.symm, rest.2.symm]
    · -- Otherwise every write is checked before the first row changes.
      simp only [List.isEmpty_iff, empty, if_false] at rest
      cases conflict : writes.findSome? (table.conflict? (table.targets present)) with
      | some error => simp [conflict] at rest
      | none =>
        simp only [conflict, Pure.pure, Except.pure, Except.ok.injEq, Prod.mk.injEq] at rest
        exact ⟨rest.1.symm, .inr ⟨empty, List.findSome?_eq_none_iff.1 conflict, rest.2.symm⟩⟩
  · -- Each of the two ways to succeed is replayed from its checks.
    intro checked
    rcases checked with ⟨present, writes, rfl, resolved, rfl, ⟨empty, rfl⟩ | ⟨matched, free, rfl⟩⟩
    · exact ⟨present, rfl, writes, resolved, by simp [empty, Pure.pure, Except.pure]⟩
    · have noConflict := List.findSome?_eq_none_iff.2 free
      exact ⟨present, rfl, writes, resolved, by simp [matched, noConflict, Pure.pure, Except.pure]⟩

/-- Rows are removed whenever there is a condition. -/
theorem remove_eq_ok_iff {table left : Table} {condition : Option Condition} {count : Nat} :
    table.remove condition = .ok (count, left) ↔
      ∃ present, condition = some present ∧ count = (table.targets present).length ∧
        left = table.withRows (table.rows.filter fun row => !table.meets present row) := by
  -- Without a condition nothing is removed; with one, both sides say the same.
  cases condition <;>
    simp [remove, Bind.bind, Except.bind, Pure.pure, Except.pure, eq_comm]

/-- Every command leaves behind the table it found or one of the three changes. -/
theorem perform_effect (table : Table) (command : TableCommand) :
    table.Effect (table.perform command).state := by
  -- A command that fails gives back the table, and one that succeeds has passed its checks.
  cases command with
  | insert values =>
    simp only [perform]
    cases result : table.insert values with
    | error error => exact .unchanged
    | ok inserted =>
      obtain ⟨row, converted, fresh, rfl⟩ := insert_eq_ok_iff.1 result
      exact .inserted converted fresh
  | select projection condition =>
    simp only [perform]
    cases table.select projection condition <;> exact .unchanged
  | update assignments condition =>
    simp only [perform]
    cases result : table.update assignments condition with
    | error error => exact .unchanged
    | ok answer =>
      obtain ⟨present, writes, -, resolved, -, ⟨-, same⟩ | ⟨matched, free, changed⟩⟩ :=
        update_eq_ok_iff.1 result
      · -- No row matches, so that the table is left as it is.
        simp only [outcome, Except.map, same]
        exact .unchanged
      · simp only [outcome, Except.map, changed]
        exact .updated resolved matched free
  | remove condition =>
    simp only [perform]
    cases result : table.remove condition with
    | error error => exact .unchanged
    | ok answer =>
      obtain ⟨present, -, -, left⟩ := remove_eq_ok_iff.1 result
      simp only [outcome, Except.map, left]
      exact .removed present

/-- A new table has no rows, and is what it was declared as with each unique column once. -/
theorem create_declares {schema : Schema} {table : Table}
    (created : Table.create schema = .ok table) :
    table.rows = #[] ∧
      table.schema = { schema with uniqueColumns := schema.uniqueColumns.eraseDups } := by
  simp only [Table.create, bind_eq_ok_iff, elim_eq_ok_iff] at created
  obtain ⟨primary, primaryFound, uniques, uniquesFound, built⟩ := created
  obtain rfl := Except.ok.inj built
  -- An index keeps the name of the column that it was made for.
  have keeps : ∀ {column index}, schema.index? column = some index → index.column = column := by
    intro column index found
    obtain ⟨position, -, rfl⟩ := Option.map_eq_some_iff.1 found
    rfl
  have names : uniques.map (·.column) = schema.uniqueColumns.eraseDups :=
    map_of_mapM_eq_ok (fun step => keeps (elim_eq_ok_iff.1 step)) uniquesFound
  refine ⟨rfl, ?_⟩
  simp [Table.schema, primaryKey, uniqueColumns, keeps primaryFound, names]

/-- A table can be made of every schema whose keys are columns. -/
theorem exists_create {schema : Schema}
    (known : ∀ column ∈ schema.primaryKey :: schema.uniqueColumns,
      column ∈ schema.columns.map (·.name)) : ∃ table, Table.create schema = .ok table := by
  -- Every key is a column, and a column has an index.
  have indexed : ∀ column ∈ schema.primaryKey :: schema.uniqueColumns,
      ∃ index, schema.index? column = some index := by
    intro column among
    obtain ⟨position, found⟩ :=
      Option.isSome_iff_exists.1 (List.isSome_idxOf?.2 (known column among))
    exact ⟨_, by rw [Schema.index?, found, Option.map_some]⟩
  obtain ⟨primary, primaryFound⟩ := indexed _ List.mem_cons_self
  have uniquesFound : ∀ column ∈ schema.uniqueColumns.eraseDups, ∃ index,
      (schema.index? column).elim (Except.error (QueryError.columnNotFound column schema.name))
        Except.ok = .ok index := by
    intro column among
    simpa only [elim_eq_ok_iff] using
      indexed column (List.mem_cons_of_mem _ (List.mem_eraseDups.1 among))
  -- An index is found for each unique column, so that all of them are built.
  obtain ⟨uniques, built⟩ := exists_mapM_eq_ok uniquesFound
  refine ⟨⟨schema.name, schema.columns, primary, uniques, #[]⟩, ?_⟩
  refine bind_eq_ok_iff.2 ⟨primary, elim_eq_ok_iff.2 primaryFound, ?_⟩
  exact bind_eq_ok_iff.2 ⟨uniques, built, rfl⟩

/-- The names of the columns are those declared. -/
theorem columnNames_of_schema {table : Table} {schema : Schema} (declared : table.schema = schema) :
    table.columnNames = schema.columns.map (·.name) := by
  -- The table keeps its columns as the schema lists them.
  rw [← declared]
  rfl

/-- What a table was declared as does not depend on its rows. -/
@[simp] theorem schema_withRows (table : Table) (rows : Array Row) :
    (table.withRows rows).schema = table.schema := by
  -- Rebuilding an index refills it and leaves the column that it is on.
  have sameColumn : ∀ index : KeyIndex, (index.rebuild rows.toList).column = index.column :=
    fun index => (index.rebuild_declared rows.toList).1
  simp [Table.schema, withRows, primaryKey, uniqueColumns, sameColumn]

/-- Rows that are replaced leave no trace. -/
@[simp] theorem withRows_withRows (table : Table) (first second : Array Row) :
    (table.withRows first).withRows second = table.withRows second := by
  -- Every index is rebuilt from the rows given last.
  simp [withRows]

/-- A row that is added leaves no trace once the rows are replaced. -/
@[simp] theorem withRows_push (table : Table) (row : Row) (rows : Array Row) :
    (table.push row).withRows rows = table.withRows rows := by
  -- The indexes are rebuilt, so that it does not matter what they held.
  simp only [withRows, push, List.map_map]
  rfl

/-- Rows that are updated leave no trace once they are replaced. -/
@[simp] theorem withRows_applyTo (table : Table) (condition : Condition) (writes : List Write)
    (rows : Array Row) : (table.applyTo condition writes).withRows rows = table.withRows rows := by
  unfold applyTo
  dsimp only
  -- The indexes are built anew or not, and neither is seen once the rows are replaced.
  split
  · exact table.withRows_withRows _ rows
  · rfl

/-- A command changes nothing of a table but its rows and what the indexes hold. -/
theorem Effect.withRows_eq {table changed : Table} (effect : table.Effect changed)
    (rows : Array Row) : changed.withRows rows = table.withRows rows := by
  -- Each effect changes the table by pushing a row, replacing the rows or not at all.
  cases effect with
  | unchanged => rfl
  | inserted converted fresh => exact table.withRows_push _ rows
  | updated resolved matched free => exact table.withRows_applyTo _ _ rows
  | removed condition => exact table.withRows_withRows _ rows

/-- What a table was declared as outlives every command. -/
theorem Effect.schema_eq {table changed : Table} (effect : table.Effect changed) :
    changed.schema = table.schema := by
  -- The declaration shows through a table without rows.
  rw [← schema_withRows changed #[], effect.withRows_eq, schema_withRows]

end Table

end TableStore
