import TableStore.Proofs.Table.Listing
import TableStore.Proofs.Table.Repeated
import TableStore.Proofs.Table.Typed

/-!
Batches: rows that are inserted one after another. Main statement: an empty table takes a batch
exactly if all rows convert and no two of them have an equal key, in whatever order they come; and
the rows that a query shows of a table are a batch that makes the table anew.
-/

namespace TableStore

/-! ## What a batch should come to -/

namespace Schema

/-- A row with exactly one value for each column, stored for one that is given. -/
def Converts (schema : Schema) (values : List Value) (row : Row) : Prop :=
  -- The lengths are compared first, as a pairing would drop what is left over.
  values.length = schema.columns.length ∧
    List.Forall₂ (fun given stored => given.1.convert given.2 = .ok stored)
      (schema.columns.zip values) row

/-- Rows of which no two have equal values in a column. -/
def TellsApart (schema : Schema) (column : Bytes) (rows : List Row) : Prop :=
  ∃ position ∈ (schema.columns.map (·.name)).idxOf? column,
    rows.Pairwise fun first second => (first.valueAt position == second.valueAt position) = false

/-- The rows that a batch comes to: all convert, and no two have equal values where none may. -/
@[mk_iff]
structure Stores (schema : Schema) (batch : List (List Value)) (rows : List Row) : Prop where
  converted : List.Forall₂ schema.Converts batch rows
  apart : ∀ column ∈ schema.primaryKey :: schema.uniqueColumns, schema.TellsApart column rows

instance (schema : Schema) (values : List Value) (row : Row) :
    Decidable (schema.Converts values row) :=
  inferInstanceAs (Decidable (_ ∧ _))

instance (schema : Schema) (column : Bytes) (rows : List Row) :
    Decidable (schema.TellsApart column rows) :=
  decidable_of_iff (((schema.columns.map (·.name)).idxOf? column).any fun position =>
      decide (rows.Pairwise fun first second =>
        (first.valueAt position == second.valueAt position) = false)) <| by
    simp only [TellsApart, Option.any_eq_true, decide_eq_true_eq, Option.mem_def]

instance (schema : Schema) (batch : List (List Value)) (rows : List Row) :
    Decidable (schema.Stores batch rows) :=
  decidable_of_iff' _ (schema.stores_iff batch rows)

/-- Rows are told apart in any order. -/
theorem TellsApart.perm {schema : Schema} {column : Bytes} {rows others : List Row}
    (apart : schema.TellsApart column rows) (permuted : others.Perm rows) :
    schema.TellsApart column others := by
  -- Equality of values is symmetric, so that a pair may come in either order.
  obtain ⟨position, found, pairwise⟩ := apart
  refine ⟨position, found, (permuted.pairwise_iff fun different => ?_).2 pairwise⟩
  rwa [BEq.comm]

end Schema

namespace Table

/-- A table that takes every row of a batch, one after another. -/
def Takes (table : Table) (batch : List (List Value)) : Prop :=
  ∀ answer ∈ table.answers (batch.map .insert), answer = .ok .inserted

/-- The table after a batch, whether or not it takes every row. -/
def afterBatch (table : Table) (batch : List (List Value)) : Table :=
  table.after (batch.map .insert)

variable {table other : Table} {values : List Value} {row : Row} {rows : List Row}
  {batch : List (List Value)}

/-! ## One row -/

/-- A row is converted as its columns convert the values. -/
theorem convertRow_eq_ok_iff :
    table.convertRow values = .ok row ↔ table.schema.Converts values row := by
  unfold convertRow Schema.Converts
  -- A row of another length is refused, and converts nothing.
  split
  · next different => exact iff_of_false (by simp) fun converts => different converts.1
  · next same =>
    -- The values are converted one by one; renaming the error changes no success.
    rw [mapM_eq_ok_iff]
    simp only [convertFor, mapError_eq_ok_iff]
    exact ⟨fun converted => ⟨not_not.1 same, converted⟩, fun converts => converts.2⟩

/-- A row repeats nothing exactly if its key is a new one in every index. -/
theorem Indexed.duplicate?_eq_none_iff (indexed : table.Indexed) :
    table.duplicate? row = none ↔
      ∀ index ∈ table.indexes, (index.valueOf row).key ∉ index.keysOf table.rows.toList := by
  refine ⟨fun fresh index member => indexed.fresh_of_duplicate? fresh member, fun fresh => ?_⟩
  -- No index finds a key that no row has.
  have untaken : ∀ index ∈ table.indexes,
      (index.lookup (index.valueOf row)).isSome = false := by
    intro index member
    rw [(indexed.exact index member).lookup_eq,
      List.idxOf?_eq_none_iff.2 (fresh index member)]
    rfl
  have unfound : table.uniques.find? (fun index => (index.lookup (index.valueOf row)).isSome) =
      none :=
    List.find?_eq_none.2 fun index member =>
      by simp [untaken index (mem_indexes_of_mem_uniques member)]
  simp [duplicate?, untaken _ table.primary_mem_indexes, unfound]

/-- An insertion answers that it is done exactly if the row converts and repeats nothing. -/
theorem result_perform_insert_iff :
    (table.perform (.insert values)).result = .ok .inserted ↔
      ∃ row, table.convertRow values = .ok row ∧ table.duplicate? row = none := by
  rw [perform]
  -- An insertion that succeeds has a row that converts and is fresh, and the reverse.
  cases inserted : table.insert values with
  | error error =>
    refine iff_of_false (by simp) fun done => ?_
    obtain ⟨row, converted, fresh⟩ := done
    have succeeded := insert_eq_ok_iff.2 ⟨row, converted, fresh, rfl⟩
    simp [inserted] at succeeded
  | ok changed =>
    obtain ⟨row, converted, fresh, -⟩ := insert_eq_ok_iff.1 inserted
    exact iff_of_true rfl ⟨row, converted, fresh⟩

/-- A row that converts and repeats nothing is stored behind the others. -/
theorem state_perform_insert (converted : table.convertRow values = .ok row)
    (fresh : table.duplicate? row = none) :
    (table.perform (.insert values)).state = table.push row := by
  -- Such an insertion succeeds, and its state is the table with the row pushed.
  rw [perform, insert_eq_ok_iff.2 ⟨row, converted, fresh, rfl⟩]

/-! ## Many rows -/

/-- Whether no key is repeated when there are more rows behind those of the table. -/
def HasRoom (table : Table) (rows : List Row) : Prop :=
  ∀ index ∈ table.indexes, (index.keysOf (table.rows.toList ++ rows)).Nodup

/-- It makes no difference whether the first of the rows is stored already. -/
theorem hasRoom_push_iff : (table.push row).HasRoom rows ↔ table.HasRoom (row :: rows) := by
  unfold HasRoom
  rw [indexes_push, push, Array.toList_push, List.append_assoc, List.singleton_append]
  -- An index gives the same keys to rows whatever it holds.
  exact List.forall_mem_map

/-- The first of the rows that there is room for repeats nothing. -/
theorem Indexed.duplicate?_of_hasRoom (indexed : table.Indexed)
    (room : table.HasRoom (row :: rows)) : table.duplicate? row = none := by
  -- A repeated key would stand twice among the keys of the old rows and the new.
  refine indexed.duplicate?_eq_none_iff.2 fun index member repeated => ?_
  have distinct := room index member
  rw [KeyIndex.keysOf, List.map_append] at distinct
  exact List.disjoint_of_nodup_append distinct repeated (by simp)

/--
A batch is taken if its first row is inserted and the rest is taken by the table that results.
-/
theorem takes_cons_iff :
    table.Takes (values :: batch) ↔
      (table.perform (.insert values)).result = .ok .inserted ∧
        (table.perform (.insert values)).state.Takes batch := by
  -- The answers of a run begin with the answer of its first command.
  simp only [Takes, List.map_cons, answers, List.forall_mem_cons]

/-- A batch is taken exactly if all its rows convert and there is room for them. -/
theorem Indexed.takes_iff (indexed : table.Indexed) :
    table.Takes batch ↔
      ∃ rows, List.Forall₂ (fun values row => table.convertRow values = .ok row) batch rows ∧
        table.HasRoom rows := by
  -- The table grows with each row, so it stays quantified over.
  induction batch generalizing table with
  | nil =>
    refine iff_of_true (by simp [Takes, answers]) ⟨[], .nil, fun index member => ?_⟩
    rw [List.append_nil]
    exact (indexed.exact index member).distinct
  | cons values batch ih =>
    rw [takes_cons_iff, result_perform_insert_iff]
    constructor
    · intro taken
      obtain ⟨⟨row, converted, fresh⟩, takenRest⟩ := taken
      rw [state_perform_insert converted fresh,
        ih (indexed.push (length_of_convertRow converted) fresh)] at takenRest
      obtain ⟨rows, convertedRest, room⟩ := takenRest
      exact ⟨row :: rows, .cons converted convertedRest, hasRoom_push_iff.1 room⟩
    · intro stored
      obtain ⟨rows, converted, room⟩ := stored
      cases converted with
      | @cons _ row _ rows converted convertedRest =>
        have fresh := indexed.duplicate?_of_hasRoom room
        refine ⟨⟨row, converted, fresh⟩, ?_⟩
        rw [state_perform_insert converted fresh,
          ih (indexed.push (length_of_convertRow converted) fresh)]
        exact ⟨rows, convertedRest, hasRoom_push_iff.2 room⟩

/-- The rows of a batch that is taken are stored behind the others, in order. -/
theorem rows_afterBatch (taken : table.Takes batch)
    (converted : List.Forall₂ (fun values row => table.convertRow values = .ok row) batch rows) :
    (table.afterBatch batch).rows.toList = table.rows.toList ++ rows := by
  -- By induction on the batch, from every table: each insertion pushes the row that comes first.
  induction batch generalizing table rows with
  | nil =>
    cases converted
    rw [List.append_nil]
    rfl
  | cons values batch ih =>
    cases converted with
    | @cons _ row _ rows isRow isRest =>
      rw [takes_cons_iff, result_perform_insert_iff] at taken
      obtain ⟨⟨found, isFound, fresh⟩, takenRest⟩ := taken
      obtain rfl := Except.ok.inj (isFound.symm.trans isRow)
      rw [state_perform_insert isRow fresh] at takenRest
      have stepped : table.afterBatch (values :: batch) = (table.push found).afterBatch batch := by
        rw [← state_perform_insert isRow fresh]
        rfl
      rw [stepped, ih takenRest isRest, push, Array.toList_push, List.append_assoc]
      rfl

/-- The indexes stay exact under a batch. -/
theorem Indexed.afterBatch (indexed : table.Indexed) (batch : List (List Value)) :
    (table.afterBatch batch).Indexed := by
  -- A batch is a run of insertions, and each has an effect that keeps the indexes.
  refine after_induction indexed (fun table command indexed => ?_) (batch.map .insert)
  exact indexed.effect (table.perform_effect command)

/-! ## Empty tables -/

/-- The keys in an index make no repetition exactly if no two rows have equal values there. -/
theorem nodup_keysOf_iff {index : KeyIndex} :
    (index.keysOf rows).Nodup ↔
      rows.Pairwise fun first second => (index.valueOf first == index.valueOf second) = false := by
  -- Keys are equal exactly if the values are.
  rw [KeyIndex.keysOf, List.Nodup, List.pairwise_map]
  simp only [ne_eq, ← Value.beq_iff, Bool.not_eq_true]

/-- The columns that are indexed are those that may not repeat a value. -/
theorem mem_map_column_indexes {schema : Schema} (created : Table.create schema = .ok table)
    {column : Bytes} :
    column ∈ table.indexes.map (·.column) ↔ column ∈ schema.primaryKey :: schema.uniqueColumns := by
  have declared := (create_declares created).2
  -- The table has one index for its key and one for each unique column, duplicates dropped.
  have primary : table.primary.column = schema.primaryKey := congrArg Schema.primaryKey declared
  have uniques : table.uniques.map (·.column) = schema.uniqueColumns.eraseDups :=
    congrArg Schema.uniqueColumns declared
  rw [indexes, List.map_cons, primary, uniques, List.mem_cons, List.mem_cons, List.mem_eraseDups]

/-- An empty table has room for rows that every column which may not repeat tells apart. -/
theorem hasRoom_iff_of_create {schema : Schema} (created : Table.create schema = .ok table) :
    table.HasRoom rows ↔
      ∀ column ∈ schema.primaryKey :: schema.uniqueColumns, schema.TellsApart column rows := by
  obtain ⟨noRows, declared⟩ := create_declares created
  have placed : ∀ index ∈ table.indexes,
      (schema.columns.map (·.name)).idxOf? index.column = some index.position := by
    have names : table.columnNames = schema.columns.map (·.name) := by
      rw [columnNames_of_schema declared]
    intro index member
    rw [← names]
    exact (create_indexed created).placed index member
  simp only [HasRoom, noRows, List.nil_append, nodup_keysOf_iff]
  constructor
  · intro distinct column among
    obtain ⟨index, member, rfl⟩ := List.mem_map.1 ((mem_map_column_indexes created).2 among)
    exact ⟨index.position, placed index member, distinct index member⟩
  · intro apart index member
    obtain ⟨position, found, pairwise⟩ :=
      apart _ ((mem_map_column_indexes created).1 (List.mem_map_of_mem member))
    -- The column is found where the index is on.
    obtain rfl := Option.some.inj ((placed index member).symm.trans found)
    exact pairwise

/-- A table converts rows as its schema does. -/
theorem forall₂_convertRow_iff {schema : Schema} (created : Table.create schema = .ok table) :
    List.Forall₂ (fun values row => table.convertRow values = .ok row) batch rows ↔
      List.Forall₂ schema.Converts batch rows := by
  -- Converting looks only at the schema, which the table has kept.
  simp only [convertRow_eq_ok_iff, (create_declares created).2]
  rfl

/-- An empty table takes a batch exactly if there are rows that it comes to. -/
theorem takes_iff_of_create {schema : Schema} (created : Table.create schema = .ok table) :
    table.Takes batch ↔ ∃ rows, schema.Stores batch rows := by
  -- Conditions on the rows of an empty table are conditions on the rows of the batch alone.
  rw [(create_indexed created).takes_iff]
  refine exists_congr fun rows => ?_
  rw [forall₂_convertRow_iff created, hasRoom_iff_of_create created, Schema.stores_iff]

/-- An empty table keeps the rows that a batch comes to, in order. -/
theorem rows_afterBatch_of_create {schema : Schema} (created : Table.create schema = .ok table)
    (stores : schema.Stores batch rows) : (table.afterBatch batch).rows.toList = rows := by
  -- There are no rows in front.
  have taken := (takes_iff_of_create created).2 ⟨rows, stores⟩
  rw [rows_afterBatch taken ((forall₂_convertRow_iff created).2 stores.converted),
    (create_declares created).1]
  rfl

/-! ## Other orders -/

/-- The row that a table stores for values, if it stores one. -/
def rowFor (table : Table) (values : List Value) : Row := (table.convertRow values).toOption.getD []

/-- The row of values that convert is what they convert to. -/
theorem rowFor_eq (converted : table.convertRow values = .ok row) : table.rowFor values = row := by
  -- The default stands for values that do not convert.
  rw [rowFor, converted]
  rfl

/-- A batch comes to the rows that the table stores for its members, and so it does in any order. -/
theorem stores_perm {schema : Schema} (created : Table.create schema = .ok table)
    (stores : schema.Stores batch rows) {others : List (List Value)}
    (permuted : others.Perm batch) : schema.Stores others (others.map table.rowFor) := by
  have converted := (forall₂_convertRow_iff created).2 stores.converted
  have isMap : batch.map table.rowFor = rows := by
    rw [← List.forall₂_eq_eq_eq, List.forall₂_map_left_iff]
    exact converted.imp fun _ _ => rowFor_eq
  refine ⟨(forall₂_convertRow_iff created).1 ?_, fun column among => ?_⟩
  · -- Each member is converted by itself, whatever stands before it.
    rw [List.forall₂_map_right_iff, List.forall₂_same]
    intro values among
    obtain ⟨row, -, isRow⟩ := exists_of_mem_forall₂ converted.flip (permuted.mem_iff.1 among)
    rwa [rowFor_eq isRow]
  · exact (stores.apart column among).perm (isMap ▸ permuted.map table.rowFor)

/-! ## Tables made anew -/

/-- A row that fits is stored as it is. -/
theorem Fits.convertRow (fits : table.Fits row) : table.convertRow row = .ok row := by
  -- Column by column, a stored value converts to itself.
  refine convertRow_eq_ok_iff.2 ⟨fits.length_eq.symm, ?_⟩
  show List.Forall₂ _ (table.columns.zip row) row
  unfold Fits at fits
  generalize table.columns = columns at fits ⊢
  induction fits with
  | nil => exact .nil
  | cons stores _ ih => exact .cons (Column.convert_of_stores stores) ih

/-- Every table in use stores values of its columns' types. -/
theorem InUse.typed (inUse : table.InUse) : table.Typed := inUse.induction create_typed Typed.effect

/-- No unique column has two indexes. -/
theorem InUse.eraseDups_uniqueColumns (inUse : table.InUse) :
    table.uniqueColumns.eraseDups = table.uniqueColumns := by
  -- The copies are dropped on creation, and no command changes the columns.
  refine @InUse.induction table (fun table => table.uniqueColumns.eraseDups = table.uniqueColumns)
    (fun created => ?_) (fun same effect => ?_) inUse
  · have uniques := congrArg Schema.uniqueColumns (create_declares created).2
    rw [show Table.uniqueColumns _ = _ from uniques, eraseDups_eraseDups]
  · have uniques := congrArg Schema.uniqueColumns effect.schema_eq
    rw [show Table.uniqueColumns _ = _ from uniques]
    exact same

/-- Every column that may not repeat is indexed. -/
theorem exists_index {column : Bytes} (among : column ∈ table.primaryKey :: table.uniqueColumns) :
    ∃ index ∈ table.indexes, index.column = column := by
  -- One index is the key's, the others are those of the unique columns.
  simpa [indexes, primaryKey, uniqueColumns, eq_comm] using among

/-- A table of any name can be declared like one in use. -/
theorem InUse.exists_create (inUse : table.InUse) (name : Bytes) :
    ∃ fresh, Table.create { table.schema with name } = .ok fresh ∧
      fresh.schema = { table.schema with name } := by
  -- What an index is on is a column, since the index points into the rows.
  have known : ∀ column ∈ table.primaryKey :: table.uniqueColumns,
      column ∈ table.columns.map (·.name) := by
    intro column among
    obtain ⟨index, member, rfl⟩ := exists_index among
    have placed := inUse.indexed.placed index member
    exact List.isSome_idxOf?.1 (Option.isSome_of_eq_some placed)
  obtain ⟨fresh, created⟩ := @Table.exists_create { table.schema with name } known
  refine ⟨fresh, created, (create_declares created).2.trans ?_⟩
  show { table.schema with name, uniqueColumns := table.uniqueColumns.eraseDups } = _
  rw [inUse.eraseDups_uniqueColumns]
  rfl

/-- The rows of a table in use make an empty table of its declaration the same table again. -/
theorem InUse.afterBatch_rows (inUse : table.InUse) {name : Bytes} {fresh : Table}
    (created : Table.create { table.schema with name } = .ok fresh)
    (declared : fresh.schema = { table.schema with name }) :
    fresh.Takes table.rows.toList ∧ fresh.afterBatch table.rows.toList = { table with name } := by
  have indexed := inUse.indexed
  have stores : Schema.Stores { table.schema with name } table.rows.toList table.rows.toList := by
    refine ⟨List.forall₂_same.2 fun row among => ?_, fun column among => ?_⟩
    · exact convertRow_eq_ok_iff.1 (inUse.typed row among).convertRow
    · -- No two rows have the same key, since every index is exact.
      obtain ⟨index, member, rfl⟩ := exists_index among
      exact ⟨index.position, indexed.placed index member,
        nodup_keysOf_iff.1 (indexed.exact index member).distinct⟩
  refine ⟨(takes_iff_of_create created).2 ⟨_, stores⟩, ?_⟩
  -- Exact indexes are determined by the declaration and the rows.
  refine ((create_indexed created).afterBatch _).ext
    ⟨indexed.placed, indexed.exact, indexed.width⟩ ?_ ?_
  · exact (schema_after fresh _).trans declared
  · exact Array.toList_inj.1 (rows_afterBatch_of_create created stores)

end Table

/--
A new table takes a batch exactly if every row has one value for each column, all values convert,
and no two of the rows that they are stored as have equal values in the primary key or in a unique
column; these rows are then its own, in order. In another order the batch is taken or not alike, and
the rows are stored in that order. The rows that a query shows of a table in use are a batch for an
empty table of the same declaration, which takes it and has the same rows and indexes then.
-/
theorem batches_are_exact :
    (∀ (schema : Schema) (table : Table), Table.create schema = .ok table →
      ∀ batch : List (List Value),
        (table.Takes batch ↔ ∃ rows, schema.Stores batch rows) ∧
        (∀ rows, schema.Stores batch rows → (table.afterBatch batch).rows.toList = rows) ∧
        (∀ others, others.Perm batch → (table.Takes others ↔ table.Takes batch)) ∧
        (table.Takes batch → ∃ store : List Value → Row, ∀ others, others.Perm batch →
          (table.afterBatch others).rows.toList = others.map store)) ∧
    ∀ table : Table, table.InUse → ∀ name : Bytes, ∃ fresh relation,
      Table.create { table.schema with name } = .ok fresh ∧
        table.select .every none = .ok relation ∧ fresh.Takes relation.rows ∧
        fresh.afterBatch relation.rows = { table with name } := by
  refine ⟨fun schema table created batch => ⟨Table.takes_iff_of_create created, ?_, ?_, ?_⟩, ?_⟩
  · exact fun rows stores => Table.rows_afterBatch_of_create created stores
  · -- A permutation can be undone.
    have takes : ∀ {first second : List (List Value)}, second.Perm first →
        table.Takes first → table.Takes second := by
      intro first second permuted taken
      obtain ⟨rows, stores⟩ := (Table.takes_iff_of_create created).1 taken
      exact (Table.takes_iff_of_create created).2 ⟨_, Table.stores_perm created stores permuted⟩
    exact fun others permuted => ⟨takes permuted.symm, takes permuted⟩
  · intro taken
    obtain ⟨rows, stores⟩ := (Table.takes_iff_of_create created).1 taken
    refine ⟨table.rowFor, fun others permuted => ?_⟩
    exact Table.rows_afterBatch_of_create created (Table.stores_perm created stores permuted)
  · intro table inUse name
    obtain ⟨fresh, created, declared⟩ := inUse.exists_create name
    obtain ⟨taken, same⟩ := inUse.afterBatch_rows created declared
    exact ⟨fresh, table.relation, created, rfl, taken, same⟩

/--
A batch whose values are converted, for columns of which two have one name, is stored in either
order; and a table whose keys have been exchanged and a row removed is made anew.
-/
theorem batches_are_exact_converted :
    (∃ table, Table.create ⟨"t", [.declare "a" "INT", .declare "b" "FLOAT", .declare "a" "TEXT"],
        "a", ["b", "b"]⟩ = .ok table ∧
      table.Takes [[.text " 7 ", .integer 2, .integer 7],
        [.float (Binary64.ofInt 8), .text "2.5", .text "7"]] ∧
      (table.afterBatch [[.float (Binary64.ofInt 8), .text "2.5", .text "7"],
        [.text " 7 ", .integer 2, .integer 7]]).rows.toList =
        [[.integer 8, .float ⟨0x4004000000000000⟩, .text "7"],
          [.integer 7, .float (Binary64.ofInt 2), .text "7"]]) ∧
    ∃ (table fresh : Table) (relation : Relation), table.InUse ∧ table.rows.size = 2 ∧
      Table.create { table.schema with name := utf8 "copy" } = .ok fresh ∧
      table.select .every none = .ok relation ∧ fresh.Takes relation.rows ∧
      fresh.afterBatch relation.rows = { table with name := utf8 "copy" } := by
  -- Both parts apply the theorem to tables that have been run.
  obtain ⟨ofBatch, ofTable⟩ := batches_are_exact
  constructor
  · refine (isOk_iff.1 ?_).imp fun table created => ⟨created, ?_, ?_⟩
    · decide +kernel
    · exact (ofBatch _ table created _).1.2
        ⟨[[.integer 7, .float (Binary64.ofInt 2), .text "7"],
          [.integer 8, .float ⟨0x4004000000000000⟩, .text "7"]], by decide +kernel⟩
    · exact (ofBatch _ table created _).2.1 _ (by decide +kernel)
  · have run : ((Database.after [.execute "CREATE TABLE t (a INT PRIMARY KEY, b TEXT UNIQUE)",
        .execute "INSERT INTO t VALUES (1, 'x')", .execute "INSERT INTO t VALUES (2, 'y')",
        .execute "INSERT INTO t VALUES (3, 'z')", .execute "DELETE FROM t WHERE a = 2",
        .execute "UPDATE t SET a = 2, b = 'y' WHERE a = 1"]).table? "t").any
          (·.rows.size == 2) = true := by
      decide +kernel
    simp only [Option.any_eq_true, beq_iff_eq] at run
    obtain ⟨table, found, size⟩ := run
    have inUse : table.InUse := .stored found
    obtain ⟨fresh, relation, created, selected, taken, same⟩ := ofTable table inUse "copy"
    -- The copy takes every row of the table that is left, as the theorem says.
    exact ⟨table, fresh, relation, inUse, size, created, selected, taken, same⟩

end TableStore
