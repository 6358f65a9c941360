import TableStore.Proofs.Table.Indexed
import TableStore.Proofs.Table.Qualified

/-!
Typed tables: every value is of the kind that its column stores. No command changes that, and a
query shows nothing but the values of rows that there are.
-/

namespace TableStore

/-- The values that columns of a type store. They are fewer than a column of the type accepts. -/
inductive DataType.Stores : DataType → Value → Prop
  | integer (number : Int64) : Stores .int (.integer number)
  | float (number : Binary64) : Stores .float (.float number)
  | text (bytes : Bytes) : Stores .text (.text bytes)
  | any (value : Value) : Stores .unknown value

/-- A value that a column stores for another one is of the kind of the column. -/
theorem Column.stores_of_convert {column : Column} {value stored : Value}
    (converted : column.convert value = .ok stored) : column.type.Stores stored := by
  -- What is stored is built by the type alone, whatever the value was.
  simp only [convert] at converted
  cases type : column.type with
  | int =>
    simp only [type] at converted
    obtain ⟨number, -, rfl⟩ := elim_map_eq_ok_iff.1 converted
    exact .integer number
  | float =>
    -- An integer that is given for such a column is a number of the other kind by now.
    simp only [type] at converted
    obtain ⟨number, -, rfl⟩ := elim_map_eq_ok_iff.1 converted
    exact .float number
  | text =>
    simp only [type] at converted
    obtain rfl := Except.ok.inj converted
    exact .text _
  | unknown => exact .any stored

/-- A value of the kind of the column is stored as it is. -/
theorem Column.convert_of_stores {column : Column} {value : Value}
    (stores : column.type.Stores value) : column.convert value = .ok value := by
  -- Each type converts a value of its own kind to itself.
  unfold convert
  generalize column.type = type at stores
  cases stores <;> rfl

namespace Table

/-- A row with exactly one value for each column, of the kind that the column stores. -/
def Fits (table : Table) (row : Row) : Prop :=
  List.Forall₂ (fun column value => column.type.Stores value) table.columns row

/-- A table all of whose rows fit its columns. -/
def Typed (table : Table) : Prop := ∀ row ∈ table.rows.toList, table.Fits row

variable {table changed : Table} {row : Row}

/-- What a column stores is of the column's kind, also where an error would name the column. -/
theorem stores_of_convertFor {column : Column} {value stored : Value}
    (converted : convertFor column value = .ok stored) : column.type.Stores stored :=
  -- Naming the column changes the error only.
  Column.stores_of_convert (mapError_eq_ok_iff.1 converted)

/-- A row that is converted for a table fits it. -/
theorem fits_of_convertRow {values : List Value} (converted : table.convertRow values = .ok row) :
    table.Fits row := by
  unfold convertRow at converted
  split at converted
  · simp at converted
  · rename_i sameLength
    -- The columns are those that the values are paired with.
    have paired : (table.columns.zip values).map Prod.fst = table.columns :=
      List.map_fst_zip (by omega)
    rw [Fits, ← paired, List.forall₂_map_left_iff]
    exact (mapM_eq_ok_iff.1 converted).imp fun _ _ => stores_of_convertFor

/-- A value of the kind of its column may be written to a row that fits. -/
theorem Fits.set (fits : table.Fits row) {position : Nat} {column : Column}
    (present : table.columns[position]? = some column) {value : Value}
    (stores : column.type.Stores value) : table.Fits (row.set position value) := by
  unfold Fits at fits ⊢
  generalize table.columns = columns at fits present ⊢
  -- The induction goes along the columns up to the one that is written.
  induction fits generalizing position with
  | nil => exact .nil
  | @cons first old columns values storesFirst rest ih =>
    cases position with
    | zero =>
      obtain rfl := Option.some.inj present
      exact .cons stores rest
    | succ position => exact .cons storesFirst (ih present)

/-- A write of a value of the kind of its column. -/
def Allows (table : Table) (write : Write) : Prop :=
  ∃ column, table.columns[write.position]? = some column ∧ column.type.Stores write.value

/-- An assignment is resolved to a write that is allowed. -/
theorem allows_of_resolve {assignment : Assignment} {write : Write}
    (resolved : table.resolve assignment = .ok write) : table.Allows write := by
  -- The stored value comes out of the conversion for the column at that position.
  simp only [resolve, bind_eq_ok_iff, elim_eq_ok_iff] at resolved
  obtain ⟨position, -, column, present, value, converted, built⟩ := resolved
  obtain rfl := Except.ok.inj built
  exact ⟨column, present, stores_of_convertFor converted⟩

/-- Writes that are allowed leave a row that fits. -/
theorem Fits.applyWrites {writes : List Write} (fits : table.Fits row)
    (allowed : ∀ write ∈ writes, table.Allows write) :
    table.Fits (Table.applyWrites writes row) := by
  induction writes generalizing row with
  | nil => exact fits
  | cons write writes ih =>
    -- The first write leaves a row that fits, and the others start from there.
    obtain ⟨column, present, stores⟩ := allowed write List.mem_cons_self
    show table.Fits (Table.applyWrites writes (row.set write.position write.value))
    apply ih (fits.set present stores)
    exact fun other among => allowed other (List.mem_cons_of_mem write among)

/-- Rewriting a row by writes that are allowed leaves a row that fits. -/
theorem Fits.rewrite {writes : List Write} (fits : table.Fits row) (condition : Condition)
    (allowed : ∀ write ∈ writes, table.Allows write) :
    table.Fits (table.rewrite condition writes row) := by
  -- A row that is not met stays as it was.
  unfold Table.rewrite
  split
  · exact fits.applyWrites allowed
  · exact fits

/-- A new table is typed, since it has no rows. -/
theorem create_typed {schema : Schema} (created : Table.create schema = .ok table) :
    table.Typed := by
  -- None of the rows is there.
  intro row among
  rw [(create_declares created).1] at among
  simp at among

/-- Whatever a command does, the table stays typed. -/
theorem Typed.effect (typed : table.Typed) (effect : table.Effect changed) : changed.Typed := by
  have columns : changed.columns = table.columns := congrArg Schema.columns effect.schema_eq
  intro row among
  rw [Fits, columns]
  cases effect with
  | unchanged => exact typed row among
  | inserted converted fresh =>
    -- The only new row has been converted.
    simp only [push, Array.toList_push, List.mem_append, List.mem_singleton] at among
    rcases among with among | rfl
    · exact typed row among
    · exact fits_of_convertRow converted
  | @updated assignments condition writes resolved matched free =>
    -- Every write comes from an assignment, which has been converted for its column.
    have allowed : ∀ write ∈ writes, table.Allows write := by
      intro write member
      obtain ⟨assignment, -, step⟩ := exists_of_mem_resolveAll resolved member
      exact allows_of_resolve step
    rw [rows_applyTo] at among
    obtain ⟨old, oldAmong, rfl⟩ := List.mem_map.1 among
    exact (typed old oldAmong).rewrite condition allowed
  | removed condition =>
    simp only [withRows, Array.toList_filter] at among
    exact typed row (List.mem_of_mem_filter among)

/-- What a row that fits has in a column is of the kind of the column. -/
theorem Fits.stores_of_cell? (fits : table.Fits row) (unrepeated : table.columnNames.Nodup)
    {column : Column} (present : column ∈ table.columns) {value : Value}
    (cell : table.cell? row column.name = some value) : column.type.Stores value := by
  obtain ⟨position, found, valued⟩ := Option.bind_eq_some_iff.1 cell
  obtain ⟨within, named, -⟩ := List.idxOf?_eq_some_iff.1 found
  have inside : position < table.columns.length := by simpa [columnNames] using within
  -- No other column has the name, so that the value stands at the position of this one.
  have same : table.columns[position] = column := by
    refine List.inj_on_of_nodup_map unrepeated (List.getElem_mem inside) present ?_
    simpa [columnNames] using named
  obtain ⟨wide, atPosition⟩ := List.getElem?_eq_some_iff.1 valued
  have stores := (List.forall₂_iff_get.1 fits).2 position inside wide
  simp only [List.get_eq_getElem] at stores
  rwa [same, atPosition] at stores

/-! ## Queries -/

/-- A scan has the columns of the table, whatever its condition. -/
theorem columns_scan (table : Table) (condition : Option Condition) :
    (table.scan condition).columns = table.columnNames := by
  cases condition with
  | none => rfl
  | some condition =>
    -- It goes through the index or through all rows, and neither changes the columns.
    rw [scan]
    split
    · rfl
    · rw [Relation.restrict_some]
      rfl

/-- A query reads no rows but those of the table. -/
theorem mem_rows_of_mem_scan {condition : Option Condition}
    (member : row ∈ (table.scan condition).rows) : row ∈ table.rows.toList := by
  cases condition with
  | none => exact member
  | some condition =>
    rw [scan] at member
    split at member
    · -- The index gives the position of a row.
      obtain ⟨position, -, present⟩ := Option.bind_eq_some_iff.1 (Option.mem_toList.1 member)
      exact Array.mem_toList_iff.2 (Array.mem_of_getElem? present)
    · rw [Relation.restrict_some] at member
      exact List.mem_of_mem_filter member

/-- A row that shows the values which another one has in some columns. -/
def ShowsRow (table : Table) (names : List Bytes) (stored shown : Row) : Prop :=
  List.Forall₂ (fun name value => table.cell? stored name = some value) names shown

/-- The names under which a query shows what is asked for. -/
def answeredNames (table : Table) : Projection → List Bytes
  | .every => table.columnNames
  | .named names => names

/-- A query that succeeds shows, for columns of the table, the values of rows of the table. -/
theorem select_shows (unrepeated : table.columnNames.Nodup)
    (wide : ∀ row ∈ table.rows.toList, row.length = table.columns.length)
    {projection : Projection} {condition : Option Condition} {relation : Relation}
    (selected : table.select projection condition = .ok relation) :
    relation.columns = table.answeredNames projection ∧
      (∀ name ∈ relation.columns, name ∈ table.columnNames) ∧
      ∀ shown ∈ relation.rows, ∃ stored ∈ table.rows.toList,
        table.ShowsRow relation.columns stored shown := by
  unfold select at selected
  cases projection with
  | every =>
    -- The rows are shown as they are read.
    obtain rfl := Except.ok.inj selected
    rw [columns_scan]
    refine ⟨rfl, fun name among => among, fun row member => ?_⟩
    have among := mem_rows_of_mem_scan member
    exact ⟨row, among, forall₂_cell? unrepeated (wide row among)⟩
  | named names =>
    rw [mapError_eq_ok_iff, Relation.project, bind_eq_ok_iff] at selected
    obtain ⟨positions, located, built⟩ := selected
    obtain rfl := Except.ok.inj built
    -- Every name has been found among the columns of the table.
    have found := mapM_eq_ok_iff.1 located
    simp only [elim_eq_ok_iff, Relation.position?, columns_scan] at found
    refine ⟨rfl, fun name among => ?_, fun shown member => ?_⟩
    · obtain ⟨position, -, atPosition⟩ := exists_of_mem_forall₂ found.flip among
      exact mem_columnNames_iff.2 (Option.isSome_of_eq_some atPosition)
    · -- A position within the row gives the value that the row has in the column.
      obtain ⟨stored, read, rfl⟩ := List.mem_map.1 member
      have among := mem_rows_of_mem_scan read
      refine ⟨stored, among, ?_⟩
      rw [ShowsRow, List.forall₂_map_right_iff]
      refine found.imp fun name position atPosition => ?_
      rw [cell?_eq (wide stored among)]
      exact congrArg (Option.map stored.valueAt) atPosition

/-- A column of the table, by its name. -/
def NamesColumn (table : Table) (name : Bytes) (column : Column) : Prop :=
  column ∈ table.columns ∧ column.name = name

end Table

/--
A relation with at least one column, whose columns are all known by their names. Each row has
exactly one value for each of them, and it is of the kind that a column of the name stores.
-/
structure Relation.Typed (names : Bytes → Column → Prop) (relation : Relation) : Prop where
  nonempty : relation.columns ≠ []
  named : ∀ name ∈ relation.columns, ∃ column, names name column
  typed : ∀ row ∈ relation.rows, List.Forall₂
    (fun name value => ∀ column, names name column → column.type.Stores value) relation.columns row

/-- A table has columns, since the primary key is one. -/
theorem Table.Indexed.columnNames_ne_nil {table : Table} (indexed : table.Indexed) :
    table.columnNames ≠ [] := by
  -- The index on the key points to a column.
  have placed := indexed.placed _ table.primary_mem_indexes
  exact List.ne_nil_of_mem (mem_columnNames_iff.2 (Option.isSome_of_eq_some placed))

/-- A query on a typed table that asks for columns is answered by a typed relation. -/
theorem Table.Typed.select {table : Table} (typed : table.Typed) (indexed : table.Indexed)
    (unrepeated : table.columnNames.Nodup) {projection : Projection}
    (asked : projection ≠ .named []) {condition : Option Condition} {relation : Relation}
    (selected : table.select projection condition = .ok relation) :
    relation.Typed table.NamesColumn := by
  obtain ⟨columns, known, rows⟩ := select_shows unrepeated indexed.width selected
  refine ⟨?_, fun name among => ?_, fun shown member => ?_⟩
  · rw [columns]
    cases projection with
    | every => exact indexed.columnNames_ne_nil
    | named names => exact fun empty => asked (congrArg Projection.named empty)
  · exact List.mem_map.1 (known name among)
  · -- The values that are shown are those of a stored row, which fits the table.
    obtain ⟨stored, among, shows⟩ := rows shown member
    refine shows.imp fun name value cell column names => ?_
    obtain ⟨present, rfl⟩ := names
    exact (typed stored among).stores_of_cell? unrepeated present cell

end TableStore
