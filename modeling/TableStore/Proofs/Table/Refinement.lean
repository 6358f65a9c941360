import TableStore.Proofs.Table.Indexed
import TableStore.Proofs.Table.Listing

/-! A table answers every command, and keeps its rows, as the listing of its rows does. -/

namespace TableStore

namespace Table

/-- A listing of the rows of a table, which may name a unique column more than once. -/
structure IsListedBy (table : Table) (listing : Listing) : Prop where
  declared : table.schema =
    { listing.schema with uniqueColumns := listing.schema.uniqueColumns.eraseDups }
  rows : table.rows.toList = listing.rows
  indexed : table.Indexed

/-- The write that an assignment to a column of the table comes to. -/
def writeOf (table : Table) (assignment : Assignment) : Write :=
  ⟨(table.columnIndex? assignment.column).getD 0, assignment.value⟩

/-- Assignments to columns that the table has. -/
def Knows (table : Table) (assignments : List Assignment) : Prop :=
  ∀ assignment ∈ assignments, ∃ position, table.columnIndex? assignment.column = some position

/-- Results that fail alike, or answer alike and leave a table and its listing. -/
inductive Agree {α : Type} : Except QueryError (α × Table) → Except QueryError (α × Listing) → Prop
  | failed (error : QueryError) : Agree (.error error) (.error error)
  | answered (answer : α) {table : Table} {listing : Listing} (listed : table.IsListedBy listing) :
      Agree (.ok (answer, table)) (.ok (answer, listing))

namespace IsListedBy

variable {table : Table} {listing : Listing}

/-- Table and listing have the same columns. -/
theorem columns_eq (listed : table.IsListedBy listing) :
    table.columns = listing.schema.columns :=
  congrArg Schema.columns listed.declared

/-- Table and listing have the same name. -/
theorem name_eq (listed : table.IsListedBy listing) : table.name = listing.schema.name :=
  congrArg Schema.name listed.declared

/-- Table and listing have the same primary key. -/
theorem primaryKey_eq (listed : table.IsListedBy listing) :
    table.primary.column = listing.schema.primaryKey :=
  congrArg Schema.primaryKey listed.declared

/-- The unique columns of a table are those of the listing, each once. -/
theorem uniqueColumns_eq (listed : table.IsListedBy listing) :
    table.uniques.map (·.column) = listing.schema.uniqueColumns.eraseDups :=
  congrArg Schema.uniqueColumns listed.declared

/-- Table and listing name their columns alike. -/
theorem columnNames_eq (listed : table.IsListedBy listing) :
    table.columnNames = listing.columnNames := by
  -- A listing reads the names from its schema.
  rw [columnNames_of_schema listed.declared]
  rfl

/-- Every listed row has one value for each column. -/
theorem width (listed : table.IsListedBy listing) {row : Row} (among : row ∈ listing.rows) :
    row.length = table.columns.length :=
  listed.indexed.width row (listed.rows ▸ among)

/-- A column at a known position has the value there. -/
theorem valueIn?_eq (listed : table.IsListedBy listing) {row : Row}
    (wide : row.length = table.columns.length) {column : Bytes} {position : Nat}
    (found : table.columnIndex? column = some position) :
    listing.valueIn? column row = some (row.valueAt position) := by
  -- The position lies within the row, so that no default value is read.
  have within : position < row.length := wide ▸ lt_of_columnIndex? found
  rw [Listing.valueIn?, ← listed.columnNames_eq]
  show (table.columnIndex? column).bind (row[·]?) = _
  rw [found, Option.bind_some, Row.valueAt, List.getD_eq_getElem?_getD,
    List.getElem?_eq_getElem within, Option.getD_some]

/-- A column that is unknown has no value. -/
theorem valueIn?_eq_none (listed : table.IsListedBy listing) {column : Bytes}
    (unknown : table.columnIndex? column = none) (row : Row) :
    listing.valueIn? column row = none := by
  -- The listing looks the column up under the same names.
  rw [Listing.valueIn?, ← listed.columnNames_eq]
  show (table.columnIndex? column).bind (row[·]?) = none
  rw [unknown, Option.bind_none]

/-- The column of an index has the value that the index is about. -/
theorem valueIn?_index (listed : table.IsListedBy listing) {row : Row}
    (wide : row.length = table.columns.length) {index : KeyIndex}
    (member : index ∈ table.indexes) :
    listing.valueIn? index.column row = some (index.valueOf row) :=
  listed.valueIn?_eq wide (listed.indexed.placed index member)

/-- A row meets a condition of the table as of the listing. -/
theorem meets_eq (listed : table.IsListedBy listing) (condition : Condition) {row : Row}
    (wide : row.length = table.columns.length) :
    table.meets condition row = listing.meets condition row := by
  show (table.columnIndex? condition.column).any _ = (listing.valueIn? condition.column row).any _
  -- An unknown column holds for no row, on either side.
  cases found : table.columnIndex? condition.column with
  | none => rw [listed.valueIn?_eq_none found]; rfl
  | some position => rw [listed.valueIn?_eq wide found]; rfl

/-- The same rows match in table and listing. -/
theorem filter_meets (listed : table.IsListedBy listing) (condition : Condition) :
    table.rows.toList.filter (table.meets condition) = listing.matching condition := by
  -- The rows are the same, and each of them is as wide as the condition needs.
  rw [listed.rows]
  exact List.filter_congr fun row among => listed.meets_eq condition (listed.width among)

/-- An index holds the value of a row exactly if a listed row repeats it. -/
theorem repeats_eq (listed : table.IsListedBy listing) {row : Row}
    (wide : row.length = table.columns.length) {index : KeyIndex}
    (member : index ∈ table.indexes) :
    (index.lookup (index.valueOf row)).isSome = listing.repeats row index.column := by
  rw [(listed.indexed.exact index member).lookup_isSome, Listing.repeats,
    listed.valueIn?_index wide member, Option.any_some, listed.rows]
  -- What is left is to compare the two tests on one row of the listing.
  rw [Bool.eq_iff_iff, List.any_eq_true, List.any_eq_true]
  refine exists_congr fun other => and_congr_right fun among => ?_
  rw [Listing.hasValue, listed.valueIn?_index (listed.width among) member, Option.any_some]

/-- A message shows the value that the index is about. -/
theorem textIn_eq (listed : table.IsListedBy listing) {row : Row}
    (wide : row.length = table.columns.length) {index : KeyIndex}
    (member : index ∈ table.indexes) :
    listing.textIn row index.column = (index.valueOf row).toText := by
  -- The text is that of the value in the column.
  rw [Listing.textIn, listed.valueIn?_index wide member, Option.elim_some]

/-- The indexes report the same repetition as a search through the listed rows. -/
theorem duplicate?_eq (listed : table.IsListedBy listing) {row : Row}
    (wide : row.length = table.columns.length) :
    table.duplicate? row =
      if listing.repeats row listing.schema.primaryKey then
        some (.primaryKeyTaken (listing.textIn row listing.schema.primaryKey))
      else (listing.schema.uniqueColumns.find? (listing.repeats row)).map fun column =>
        .uniqueTaken column (listing.textIn row column) := by
  have primary := table.primary_mem_indexes
  -- A search through the unique indexes is one through their columns.
  have uniques : (table.uniques.find? fun index => (index.lookup (index.valueOf row)).isSome) =
      table.uniques.find? fun index => listing.repeats row index.column :=
    List.find?_congr fun index member =>
      listed.repeats_eq wide (mem_indexes_of_mem_uniques member)
  -- And a column that is named twice is found the first time.
  have columns := congrArg (List.find? (listing.repeats row)) listed.uniqueColumns_eq
  rw [find?_eraseDups, List.find?_map] at columns
  rw [← listed.primaryKey_eq, ← columns]
  simp only [duplicate?, listed.repeats_eq wide primary, listed.textIn_eq wide primary, uniques,
    Option.map_map]
  congr 1
  cases found : table.uniques.find? fun index => listing.repeats row index.column with
  | none => simp [Function.comp_def, found]
  | some index =>
    have member := mem_indexes_of_mem_uniques (List.mem_of_find?_eq_some found)
    simp [Function.comp_def, found, listed.textIn_eq wide member]

/-- A row that is pushed is listed last. -/
theorem push (listed : table.IsListedBy listing) {row : Row}
    (wide : row.length = table.columns.length) (fresh : table.duplicate? row = none) :
    (table.push row).IsListedBy { listing with rows := listing.rows ++ [row] } where
  declared := by
    -- The declaration shows through a table without rows.
    rw [← schema_withRows (table.push row) #[], withRows_push, schema_withRows]
    exact listed.declared
  rows := by simp [Table.push, listed.rows]
  indexed := listed.indexed.push wide fresh

/-- Inserting a row fails alike or leaves a table and its listing. -/
theorem insert_agrees (listed : table.IsListedBy listing) (values : List Value) :
    Agree ((table.insert values).map (TableAnswer.inserted, ·))
      ((listing.insert values).map (.inserted, ·)) := by
  -- Both convert the values in the same way.
  have sameRow : listing.insert values = table.convertRow values >>= listing.addRow := by
    rw [Table.convertRow, listed.columns_eq, Listing.insert]
    dsimp only
    split <;> rfl
  rw [sameRow, Table.insert]
  cases converted : table.convertRow values with
  | error error => exact .failed error
  | ok row =>
    -- The row is then checked, by look-ups or by searches.
    have wide := length_of_convertRow converted
    have duplicate := listed.duplicate?_eq wide
    simp only [Bind.bind, Except.bind, Listing.addRow]
    by_cases taken : listing.repeats row listing.schema.primaryKey = true
    · rw [if_pos taken] at duplicate ⊢
      rw [duplicate]
      exact .failed _
    · rw [if_neg taken] at duplicate ⊢
      cases found : listing.schema.uniqueColumns.find? (listing.repeats row) with
      | some column =>
        rw [found, Option.map_some] at duplicate
        rw [duplicate]
        exact .failed _
      | none =>
        rw [found, Option.map_none] at duplicate
        rw [duplicate]
        exact .answered _ (listed.push wide duplicate)

/-- The rows that a query reads are the listed ones that meet its condition. -/
theorem scan_eq (listed : table.IsListedBy listing) (condition : Option Condition) :
    table.scan condition =
      { columns := listing.columnNames, rows := condition.elim listing.rows listing.matching } := by
  cases condition with
  | none => rw [scan, relation, listed.columnNames_eq, listed.rows, Option.elim_none]
  | some condition =>
    obtain ⟨column, value⟩ := condition
    rw [Option.elim_some, ← listed.filter_meets, ← listed.columnNames_eq, scan]
    by_cases primary : column = table.primaryKey
    · subst primary
      -- The index answers as a search for its column does.
      have placed := listed.indexed.placed _ table.primary_mem_indexes
      have exact := listed.indexed.exact _ table.primary_mem_indexes
      have meets : table.meets ⟨table.primaryKey, value⟩ = (table.primary.valueOf · == value) := by
        funext row
        show (table.columnIndex? table.primary.column).any _ = _
        rw [placed]
        rfl
      simp only [beq_self_eq_true, if_true, relation, meets, ← exact.toList_lookup,
        Array.getElem?_toList]
    · -- Any other column is searched already.
      simp only [beq_iff_eq, if_neg primary]
      exact table.relation.restrict_some ⟨column, value⟩

/-- The values at the positions of columns are those that the row has in the columns. -/
theorem map_valueAt_eq (listed : table.IsListedBy listing) {row : Row}
    (wide : row.length = table.columns.length) (columns : List Bytes) :
    (columns.filterMap listing.columnNames.idxOf?).map row.valueAt =
      columns.filterMap (listing.valueIn? · row) := by
  rw [List.map_filterMap]
  -- Column by column, and an unknown one has neither position nor value.
  refine List.filterMap_congr fun column _ => ?_
  rw [← listed.columnNames_eq]
  show (table.columnIndex? column).map row.valueAt = _
  cases found : table.columnIndex? column with
  | none => rw [listed.valueIn?_eq_none found, Option.map_none]
  | some position => rw [listed.valueIn?_eq wide found, Option.map_some]

/-- A query fails alike or selects the same rows. -/
theorem select_eq (listed : table.IsListedBy listing) (projection : Projection)
    (condition : Option Condition) :
    table.select projection condition = listing.select projection condition := by
  rw [Table.select, listed.scan_eq]
  unfold Listing.select
  dsimp only
  generalize selected : condition.elim listing.rows listing.matching = rows
  cases projection with
  | every => rfl
  | named columns =>
    -- The columns are looked up before a row is read, and the first unknown one is told.
    have lookup := mapM_lookup listing.columnNames.idxOf? columns
    have unknown : (columns.find? fun column => (listing.columnNames.idxOf? column).isNone) =
        columns.find? fun column => !listing.columnNames.contains column := by
      congr 1
      funext column
      rw [Bool.eq_iff_iff]
      simp
    rw [unknown] at lookup
    simp only [Relation.project, Relation.position?, lookup, listed.name_eq]
    cases columns.find? fun column => !listing.columnNames.contains column with
    | some column => rfl
    | none =>
      -- Every selected row is wide enough to have a value at each position.
      have among : ∀ row ∈ rows, row ∈ listing.rows := by
        intro row member
        subst selected
        cases condition with
        | none => exact member
        | some condition => exact List.mem_of_mem_filter member
      have cells : ∀ row ∈ rows, (columns.filterMap listing.columnNames.idxOf?).map row.valueAt =
          columns.filterMap (listing.valueIn? · row) :=
        fun row member => listed.map_valueAt_eq (listed.width (among row member)) columns
      show Except.ok _ = Except.ok _
      rw [List.map_congr_left cells]

/-- An assignment resolves to the write at its column's position, or fails alike. -/
theorem resolve_eq (listed : table.IsListedBy listing) (assignment : Assignment) :
    table.resolve assignment = (listing.resolve assignment).map table.writeOf := by
  unfold Table.resolve Listing.resolve
  -- The column of a name is the one at the position of the name.
  have byPosition : listing.schema.columns.find? (·.name == assignment.column) =
      (table.columnIndex? assignment.column).bind (table.columns[·]?) := by
    rw [List.find?_eq_bind_findIdx?_getElem?, columnIndex?, columnNames, List.idxOf?,
      List.findIdx?_map, listed.columns_eq]
    rfl
  rw [byPosition, listed.name_eq]
  cases found : table.columnIndex? assignment.column with
  | none => rfl
  | some position =>
    have within := lt_of_columnIndex? found
    obtain ⟨_, named, -⟩ := List.idxOf?_eq_some_iff.1 found
    have sameName : (table.columns[position]).name = assignment.column := by
      simpa [columnNames] using named
    -- The message names the column that was found, which is the one that was asked for.
    have present := List.getElem?_eq_getElem within
    simp only [Option.bind_some, Option.elim_some, present, convertFor, sameName, Bind.bind,
      Except.bind]
    cases table.columns[position].convert assignment.value with
    | error error => rfl
    | ok value => simp [Except.mapError, Except.map, writeOf, found, Pure.pure, Except.pure]

/-- An assignment that resolves is to a column of the table. -/
theorem known_of_resolve (listed : table.IsListedBy listing) {assignment resolved : Assignment}
    (resolves : listing.resolve assignment = .ok resolved) :
    ∃ position, table.columnIndex? resolved.column = some position := by
  -- The write that it comes to is at the position of its column.
  have written := listed.resolve_eq assignment
  rw [resolves] at written
  have found := position_of_resolve written
  unfold Listing.resolve at resolves
  split at resolves
  · simp at resolves
  · obtain ⟨value, -, rfl⟩ := map_eq_ok_iff.1 resolves
    exact ⟨_, found⟩

/-- An index at the position of a column is on that column. -/
theorem column_eq (listed : table.IsListedBy listing) {index : KeyIndex}
    (member : index ∈ table.indexes) {column : Bytes}
    (found : table.columnIndex? column = some index.position) : index.column = column :=
  columnIndex?_inj (listed.indexed.placed index member) found

/-- An index at the position of the primary key is on the primary key. -/
theorem position_eq_primary_iff (listed : table.IsListedBy listing) {index : KeyIndex}
    (member : index ∈ table.indexes) :
    index.position = table.primary.position ↔ index.column = listing.schema.primaryKey := by
  have placed := listed.indexed.placed index member
  have primaryPlaced := listed.indexed.placed _ table.primary_mem_indexes
  -- An index has its column at its position, and a position has one name only.
  rw [← listed.primaryKey_eq]
  constructor
  · intro same
    exact (listed.column_eq table.primary_mem_indexes (same ▸ placed)).symm
  · intro same
    rw [← same, placed] at primaryPlaced
    exact Option.some.inj primaryPlaced

/-- A column is unique in the listing exactly if the table has a unique index on it. -/
theorem contains_uniqueColumns_iff (listed : table.IsListedBy listing) {column : Bytes} :
    listing.schema.uniqueColumns.contains column = true ↔
      ∃ index ∈ table.uniques, index.column = column := by
  -- The unique indexes are on the unique columns, of which copies are dropped.
  rw [List.contains_iff_mem, ← List.mem_eraseDups, ← listed.uniqueColumns_eq, List.mem_map]

/-- Table and listing block the same values. -/
theorem isBlocked_eq (listed : table.IsListedBy listing) (condition : Condition)
    {index : KeyIndex} (member : index ∈ table.indexes) (value : Value) :
    table.isBlocked condition index value = listing.isBlocked condition index.column value := by
  rw [isBlocked, Listing.isBlocked, listed.filter_meets, listed.rows]
  congr 1
  -- What is left is to compare the two tests on one row of the listing.
  rw [Bool.eq_iff_iff, List.any_eq_true, List.any_eq_true]
  refine exists_congr fun row => and_congr_right fun among => ?_
  have wide := listed.width among
  rw [listed.meets_eq condition wide, Listing.hasValue, listed.valueIn?_index wide member,
    Option.any_some]

/-- A look-up in the indexes tells the same conflict as a search through the listed rows. -/
theorem conflict?_eq (listed : table.IsListedBy listing) {condition : Condition}
    (matched : table.targets condition ≠ []) {column : Bytes} {position : Nat}
    (found : table.columnIndex? column = some position) (value : Value) :
    table.conflict? (table.targets condition) ⟨position, value⟩ =
      listing.conflict? condition column value := by
  rw [listed.indexed.conflict?_eq matched, Listing.conflict?]
  cases located : table.indexAt? position with
  | none =>
    -- Without an index the column may repeat its values.
    have unindexed : ∀ index ∈ table.indexes, index.column ≠ column := by
      intro index member same
      have placed := listed.indexed.placed index member
      rw [same, found] at placed
      have samePosition := Option.some.inj placed
      simpa [samePosition] using List.find?_eq_none.1 located index member
    have notPrimary : column ≠ listing.schema.primaryKey := by
      rw [← listed.primaryKey_eq]
      exact (unindexed _ table.primary_mem_indexes).symm
    have notUnique : ¬listing.schema.uniqueColumns.contains column = true := by
      rw [listed.contains_uniqueColumns_iff]
      intro hasIndex
      rcases hasIndex with ⟨index, unique, same⟩
      exact unindexed index (mem_indexes_of_mem_uniques unique) same
    rw [if_neg notPrimary, if_neg notUnique, ite_self]
    rfl
  | some index =>
    have member : index ∈ table.indexes := List.mem_of_find?_eq_some located
    obtain rfl : index.position = position := by simpa using List.find?_some located
    obtain rfl := listed.column_eq member found
    simp only [Option.bind_some, listed.isBlocked_eq condition member,
      listed.position_eq_primary_iff member]
    split
    · by_cases primary : index.column = listing.schema.primaryKey
      · rw [if_pos primary, if_pos primary]
      · -- Every other index is on a unique column.
        have unique : listing.schema.uniqueColumns.contains index.column = true := by
          rcases List.mem_cons.1 member with rfl | unique
          · exact absurd listed.primaryKey_eq primary
          · exact listed.contains_uniqueColumns_iff.2 ⟨index, unique, rfl⟩
        rw [if_neg primary, if_neg primary, if_pos unique]
    · rfl

/-- The merged writes conflict as the last values of the assigned columns do. -/
theorem findSome?_conflict?_eq (listed : table.IsListedBy listing) {condition : Condition}
    (matched : table.targets condition ≠ []) {resolved : List Assignment}
    (known : table.Knows resolved) :
    (merge (resolved.map table.writeOf)).findSome? (table.conflict? (table.targets condition)) =
      resolved.findSome? fun assignment =>
        (Listing.lastValue? resolved assignment.column).bind
          (listing.conflict? condition assignment.column) := by
  rw [findSome?_merge, List.findSome?_map]
  refine findSome?_congr fun assignment among => ?_
  obtain ⟨position, found⟩ := known assignment among
  -- Two assignments write to the same position only if they name the same column.
  have sameTest : resolved.reverse.find?
        ((·.position == (table.writeOf assignment).position) ∘ table.writeOf) =
      resolved.reverse.find? (·.column == assignment.column) := by
    refine List.find?_congr fun other otherAmong => ?_
    obtain ⟨otherPosition, otherFound⟩ := known other (List.mem_reverse.1 otherAmong)
    rw [Bool.eq_iff_iff, Function.comp_apply, beq_iff_eq, beq_iff_eq, writeOf, writeOf, found,
      otherFound]
    constructor
    · intro same
      simp only [Option.getD_some] at same
      subst same
      exact columnIndex?_inj otherFound found
    · intro same
      rw [same, found] at otherFound
      exact congrArg (Option.getD · 0) otherFound.symm
  rw [Function.comp_apply, ← List.map_reverse, List.find?_map, sameTest, Listing.lastValue?]
  cases final : resolved.reverse.find? (·.column == assignment.column) with
  | none => rfl
  | some last =>
    have sameColumn : last.column = assignment.column := by simpa using List.find?_some final
    have written : table.writeOf last = ⟨position, last.value⟩ := by
      rw [writeOf, sameColumn, found, Option.getD_some]
    simp only [Option.map_some, Option.bind_some, written]
    exact listed.conflict?_eq matched found last.value

/-- An update rewrites a row as the assignments do one after another. -/
theorem rewrite_eq (listed : table.IsListedBy listing) (condition : Condition)
    {resolved : List Assignment} (known : table.Knows resolved) {row : Row}
    (wide : row.length = table.columns.length) :
    table.rewrite condition (merge (resolved.map table.writeOf)) row =
      if listing.meets condition row then resolved.foldl listing.assign row else row := by
  rw [rewrite, listed.meets_eq condition wide, applyWrites_merge, applyWrites, List.foldl_map]
  congr 1
  -- The row changes with each assignment, so it stays quantified over.
  clear wide
  induction resolved generalizing row with
  | nil => rfl
  | cons assignment resolved ih =>
    obtain ⟨position, found⟩ := known assignment List.mem_cons_self
    have assigned : listing.assign row assignment =
        row.set (table.writeOf assignment).position (table.writeOf assignment).value := by
      rw [Listing.assign, ← listed.columnNames_eq]
      show (table.columnIndex? assignment.column).elim row _ = _
      rw [writeOf, found]
      rfl
    rw [List.foldl_cons, List.foldl_cons, assigned]
    exact ih fun other among => known other (List.mem_cons_of_mem assignment among)

/-- As many rows are found as the listing has. -/
theorem length_targets_eq (listed : table.IsListedBy listing) (condition : Condition) :
    (table.targets condition).length = (listing.matching condition).length := by
  -- The targets are the positions of the rows that match.
  rw [length_targets, listed.filter_meets]

/-- An update fails alike or leaves a table and its listing. -/
theorem update_agrees (listed : table.IsListedBy listing) (assignments : List Assignment)
    (condition : Option Condition) :
    Agree (table.update assignments condition) (listing.update assignments condition) := by
  cases condition with
  | none => exact .failed _
  | some condition =>
    have resolvedAll := resolveAll_eq table assignments
    rw [mapM_map fun assignment _ => listed.resolve_eq assignment] at resolvedAll
    unfold Table.update Listing.update
    simp only [Option.elim_some, Bind.bind, Except.bind, Pure.pure, Except.pure]
    -- All assignments resolve, or the first that does not is told by both.
    cases resolves : assignments.mapM listing.resolve with
    | error error =>
      rw [resolves] at resolvedAll
      rw [resolvedAll]
      exact .failed error
    | ok resolved =>
      rw [resolves] at resolvedAll
      have known : table.Knows resolved := by
        intro assignment among
        obtain ⟨_, -, resolves⟩ := exists_of_mem_mapM resolves among
        exact listed.known_of_resolve resolves
      obtain ⟨distinct, placed⟩ := writes_of_resolveAll resolvedAll
      rw [resolvedAll]
      simp only [Except.map, List.isEmpty_iff, ← listed.length_targets_eq, List.length_eq_zero_iff]
      by_cases empty : table.targets condition = []
      · rw [if_pos empty, if_pos empty]
        exact .answered 0 listed
      rw [if_neg empty, if_neg empty, ← listed.findSome?_conflict?_eq empty known]
      cases conflict : (merge (resolved.map table.writeOf)).findSome?
          (table.conflict? (table.targets condition)) with
      | some error => exact .failed error
      | none =>
        -- Without a conflict the rows are rewritten, and the indexes stay exact.
        have free := List.findSome?_eq_none_iff.1 conflict
        refine .answered _ ⟨?_, ?_, listed.indexed.applyTo empty distinct placed free⟩
        · rw [← schema_withRows _ #[], withRows_applyTo, schema_withRows]
          exact listed.declared
        · rw [rows_applyTo, listed.rows]
          exact List.map_congr_left fun row among =>
            listed.rewrite_eq condition known (listed.width among)

/-- Removing rows fails alike or leaves a table and its listing. -/
theorem remove_agrees (listed : table.IsListedBy listing) (condition : Option Condition) :
    Agree (table.remove condition) (listing.remove condition) := by
  cases condition with
  | none => exact .failed _
  | some condition =>
    unfold Table.remove Listing.remove
    simp only [Option.elim_some, Bind.bind, Except.bind, Pure.pure, Except.pure,
      listed.length_targets_eq]
    -- The rows that are kept are those that do not match.
    refine .answered _ ⟨?_, ?_, listed.indexed.filter _⟩
    · rw [schema_withRows]
      exact listed.declared
    · show (table.rows.filter _).toList = _
      rw [Array.toList_filter, listed.rows]
      exact List.filter_congr fun row among => by
        rw [listed.meets_eq condition (listed.width among)]

/-- A table and its listing answer a command alike, and are a table and its listing afterwards. -/
theorem perform (listed : table.IsListedBy listing) (command : TableCommand) :
    (table.perform command).result = (listing.perform command).2 ∧
      (table.perform command).state.IsListedBy (listing.perform command).1 := by
  -- Each operation agrees, and what is left is how its result becomes an outcome.
  cases command with
  | insert values =>
    have agree := listed.insert_agrees values
    simp only [Table.perform, Listing.perform]
    cases inserted : table.insert values with
    | error error =>
      rw [inserted] at agree
      generalize (listing.insert values).map (TableAnswer.inserted, ·) = result at agree ⊢
      cases agree
      exact ⟨rfl, listed⟩
    | ok changed =>
      rw [inserted] at agree
      generalize (listing.insert values).map (TableAnswer.inserted, ·) = result at agree ⊢
      cases agree with
      | answered answer listed => exact ⟨rfl, listed⟩
  | select projection condition =>
    simp only [Table.perform, Listing.perform, listed.select_eq]
    cases listing.select projection condition <;> exact ⟨rfl, listed⟩
  | update assignments condition =>
    have agree := listed.update_agrees assignments condition
    simp only [Table.perform, Listing.perform]
    generalize table.update assignments condition = written at agree ⊢
    generalize listing.update assignments condition = result at agree ⊢
    cases agree with
    | failed error => exact ⟨rfl, listed⟩
    | answered answer listed => exact ⟨rfl, listed⟩
  | remove condition =>
    have agree := listed.remove_agrees condition
    simp only [Table.perform, Listing.perform]
    generalize table.remove condition = written at agree ⊢
    generalize listing.remove condition = result at agree ⊢
    cases agree with
    | failed error => exact ⟨rfl, listed⟩
    | answered answer listed => exact ⟨rfl, listed⟩

/-- Commands get the same answers from a table and its listing, which stay table and listing. -/
theorem answers_eq (listed : table.IsListedBy listing) (commands : List TableCommand) :
    table.answers commands = listing.answers commands ∧
      (table.after commands).IsListedBy (listing.after commands) := by
  induction commands generalizing table listing with
  | nil => exact ⟨rfl, listed⟩
  | cons command commands ih =>
    -- One step, and then the others from the table and the listing that it leaves.
    obtain ⟨sameAnswer, listedAfter⟩ := listed.perform command
    obtain ⟨sameAnswers, listedEnd⟩ := ih listedAfter
    refine ⟨?_, listedEnd⟩
    rw [Table.answers, Listing.answers, sameAnswer, sameAnswers]

end IsListedBy

/-- A new table is listed without rows. -/
theorem create_isListedBy {schema : Schema} {table : Table}
    (created : Table.create schema = .ok table) : table.IsListedBy (.new schema) := by
  -- Neither has rows yet, and the indexes of a new table are exact.
  obtain ⟨noRows, declared⟩ := create_declares created
  exact ⟨declared, by rw [noRows]; rfl, create_indexed created⟩

end Table

/--
A table answers commands, one after another, as the listing does that starts without rows and
searches through all of them: with the same results and the same errors. And it keeps the same
rows in the same order.
-/
theorem table_refines_listing {schema : Schema} {table : Table}
    (created : Table.create schema = .ok table) (commands : List TableCommand) :
    table.answers commands = (Listing.new schema).answers commands ∧
      (table.after commands).rows.toList = ((Listing.new schema).after commands).rows := by
  -- The simulation goes over to whole runs.
  obtain ⟨sameAnswers, listed⟩ := (Table.create_isListedBy created).answers_eq commands
  exact ⟨sameAnswers, listed.rows⟩

/-- The answers agree where a key is repeated, written twice at once, and removed. -/
theorem table_refines_listing_repeated :
    ∃ table, Table.create ⟨"t", [.declare "a" "INT", .declare "b" "TEXT"], "a", ["b", "b"]⟩ =
        .ok table ∧
      table.answers [.insert [.integer 1, .text "x"], .insert [.integer 2, .text "x"],
        .insert [.integer 2, .text "y"],
        .update [⟨"a", .integer 2⟩, ⟨"a", .integer 5⟩] (some ⟨"b", .text "y"⟩),
        .update [⟨"b", .text "z"⟩] none, .remove (some ⟨"a", .integer 1⟩),
        .select .every (some ⟨"a", .integer 5⟩)] =
        [.ok .inserted, .error (.uniqueTaken "b" "x"), .ok .inserted, .ok (.updated 1),
          .error (.missingCondition "UPDATE"), .ok (.removed 1),
          .ok (.selected ⟨["a", "b"], [[.integer 5, .text "y"]]⟩)] := by
  -- The listing is run instead of the table.
  refine (isOk_iff.1 ?_).imp fun table created => ⟨created, ?_⟩
  · decide +kernel
  · rw [(table_refines_listing created _).1]
    decide +kernel

end TableStore
